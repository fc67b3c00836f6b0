import ModelHub.Proofs.Json.Grammar
import ModelHub.Proofs.Push.Encoding
import ModelHub.Proofs.Reconcile.Pass
import ModelHub.Proofs.Text.Blank

namespace ModelHub

namespace Json

variable {name : String} {value : Json} {members : List (Option String × Json)}
  {entries : List String}

theorem mem_named : value ∈ named name members ↔ (some name, value) ∈ members := by
  simp [named]

theorem length_named : (named name members).length = (members.map Prod.fst).count (some name) := by
  rw [named, List.length_map, ← List.countP_eq_length_filter, List.count_eq_countP, List.countP_map]
  exact List.countP_congr fun member _ => by simp

theorem asText_eq_some_iff {entry : String} : asText value = some entry ↔ value = text entry := by
  cases value <;> simp [asText, text]

theorem mapM_asText {items : List Json} (read : items.mapM asText = some entries) :
    items = entries.map text := by
  induction items generalizing entries with
  | nil =>
    obtain rfl := Option.some.inj read
    rfl
  | cons item rest ih =>
    rw [List.mapM_cons] at read
    obtain ⟨entry, readEntry, read⟩ := Option.bind_eq_some_iff.mp read
    obtain ⟨others, readOthers, read⟩ := Option.bind_eq_some_iff.mp read
    obtain rfl := Option.some.inj read
    rw [List.map_cons, asText_eq_some_iff.mp readEntry, ih readOthers]

theorem asList_asText_eq_some_iff : asList asText value = some entries ↔ value = texts entries := by
  constructor
  · intro read
    unfold asList at read
    split at read
    · exact congrArg Json.arr (mapM_asText read)
    · cases read
  · rintro rfl
    have back : ∀ entry, asText (text entry) = some entry := fun _ => rfl
    exact asList_map back entries

theorem texts_injective {more : List String} (same : texts entries = texts more) :
    entries = more := by
  have read := asList_asText_eq_some_iff.mpr same
  exact (Option.some.inj (read.symm.trans (asList_asText_eq_some_iff.mpr rfl))).symm

end Json

namespace Text

theorem trimString_eq_empty_iff {text : String} : trimString text = "" ↔ Blank text.toList := by
  have trimmed : Trimmed [] := ⟨nofun, nofun⟩
  rw [trimString, ← String.toList_inj, String.toList_ofList]
  refine (trim_eq_iff trimmed).trans ⟨?_, fun blank => ⟨text.toList, [], ?_, blank, nofun⟩⟩
  · rintro ⟨left, right, isText, blank, blankToo⟩
    rw [isText, List.append_nil]
    exact List.forall_mem_append.mpr ⟨blank, blankToo⟩
  · rw [List.append_nil, List.append_nil]

end Text

namespace Reconcile

variable {files : FileRequest → Except HubError String} {source path reference : String}
  {identity : RepoIdentity} {action : FileAction} {e : HubError}

def Serves (files : FileRequest → Except HubError String) (source : String) : Prop :=
  ∀ request, request.path = modelConfigFile → files request = .ok source

theorem leads_pass_of_unread {repository : Repository} {store : Store}
    {post : Except HubError Outcome → Store → Prop} (notRemoved : action ≠ .removed)
    (failed : ModelConfig.architecture source = .error e) (ended : post (.error e) store) :
    Program.Leads (Store.answers (fun _ => False) files)
      (pass repository action (.ok source)).run store post := by
  have read : (Except.ok source).bind ModelConfig.architecture = .error e := failed
  unfold pass
  rw [if_neg notRemoved, read]
  exact ended

theorem leads_revise_of_unread (config : SyncConfig) (repository : Repository) {store : Store}
    {post : Except HubError Outcome → Store → Prop} (serves : Serves files source)
    (notRemoved : action ≠ .removed) (failed : ModelConfig.architecture source = .error e)
    (ended : post (.error e) store) :
    Program.Leads (Store.answers (fun _ => False) files)
      (revise config repository reference action).run store post := by
  rw [run_revise config repository reference notRemoved]
  rintro _ _ ⟨rfl, rfl⟩
  rintro _ _ ⟨rfl, rfl⟩
  rw [serves _ rfl]
  exact leads_pass_of_unread notRemoved failed ended

theorem leads_reconcile_of_unread (config : SyncConfig) (store : Store)
    (triggered : triggers identity path = true) (serves : Serves files source)
    (notRemoved : action ≠ .removed) (failed : ModelConfig.architecture source = .error e) :
    Program.Leads (Store.answers (fun _ => False) files)
      (reconcile config identity reference path action).run store fun outcome after =>
        Push.reconciled outcome = .clean ∧ after = store := by
  have skipped : e.isSkippable := ModelConfig.isSkippable_of_architecture failed
  rw [run_reconcile config triggered]
  rintro reply after (⟨found, rfl, performed⟩ | ⟨_, isFault, -⟩)
  · obtain rfl : after = store := (congrArg Prod.snd performed).symm
    cases found with
    | none => exact ⟨rfl, rfl⟩
    | some repository =>
      simp only [opening]
      split
      · rw [Work.run_holding]
        rintro _ _ ⟨rfl, rfl⟩
        rintro _ _ ⟨rfl, rfl⟩
        refine Program.leads_bind.mpr
          (leads_revise_of_unread config repository serves notRemoved failed ?_)
        rintro _ _ rfl
        exact ⟨by rw [Push.reconciled, if_pos skipped], rfl⟩
      · exact ⟨rfl, rfl⟩
  · exact isFault.elim

theorem leads_reconcileFile_of_unread (options : Push.Options) (store : Store)
    (serves : Serves files source) (notRemoved : action ≠ .removed)
    (failed : ModelConfig.architecture source = .error e) :
    Program.Leads (Store.answers (fun _ => False) files)
      (Push.reconcileFile options identity reference path action) store fun progress after =>
        progress = .clean ∧ after = store := by
  unfold Push.reconcileFile
  split
  · next triggered =>
    exact Program.leads_bind.mpr
      (leads_reconcile_of_unread options.config store triggered serves notRemoved failed)
  · exact ⟨rfl, rfl⟩

end Reconcile

namespace ModelConfig

open Json (named texts)

/-- The text is the first entry that is not blank, without the white space around it. -/
structure FirstUsable (entries : List String) (found : String) : Prop where
  nonempty : found ≠ ""
  trimmed : Text.Trimmed found.toList
  first : ∃ before entry behind, entries = before ++ entry :: behind ∧
    (∀ other ∈ before, Text.Blank other.toList) ∧ Text.Pads entry.toList found.toList

variable {source found : String} {members : List (Option String × Json)} {entries : List String}
  {e : HubError}

theorem find?_eq_some_iff :
    (entries.map Text.trimString).find? (fun entry => entry ≠ "") = some found ↔
      FirstUsable entries found := by
  rw [List.find?_map, Option.map_eq_some_iff]
  simp only [List.find?_eq_some_iff_append, Function.comp_apply, decide_eq_true_eq, ne_eq,
    Bool.not_eq_true', decide_eq_false_iff_not, not_not, Text.trimString_eq_empty_iff]
  constructor
  · rintro ⟨entry, ⟨notBlank, before, behind, split, blank⟩, rfl⟩
    refine ⟨fun empty => notBlank (Text.trimString_eq_empty_iff.mp empty), ?_, before, entry, behind,
      split, blank, ?_⟩
    · rw [Text.trimString, String.toList_ofList]
      exact Text.trimmed_trim _
    · rw [Text.trimString, String.toList_ofList]
      exact Text.pads_trim _
  · rintro ⟨nonempty, trimmed, before, entry, behind, split, blank, pads⟩
    have isFound : Text.trimString entry = found := by
      rw [Text.trimString, (Text.trim_eq_iff trimmed).mpr pads, String.ofList_toList]
    refine ⟨entry, ⟨fun isBlank => nonempty ?_, before, behind, split, blank⟩, isFound⟩
    rw [← isFound, Text.trimString_eq_empty_iff.mpr isBlank]

theorem find?_eq_none_iff :
    (entries.map Text.trimString).find? (fun entry => entry ≠ "") = none ↔
      ∀ entry ∈ entries, Text.Blank entry.toList := by
  simp [List.find?_eq_none, Text.trimString_eq_empty_iff]

theorem not_firstUsable_nil : ¬ FirstUsable [] found := by
  rintro ⟨-, -, before, entry, behind, split, -⟩
  exact List.append_ne_nil_of_right_ne_nil before (List.cons_ne_nil entry behind) split.symm

theorem unreadable_ne_undeclared : unreadable ≠ undeclared := by decide

theorem architecture_of_unread (unread : architectures? source = none) :
    architecture source = .error unreadable := by
  rw [architecture, unread]

theorem architecture_eq_ok_iff (read : architectures? source = some entries) :
    architecture source = .ok found ↔ FirstUsable entries found := by
  rw [architecture, read, ← find?_eq_some_iff]
  dsimp only
  split
  · next isNone => rw [isNone]; exact ⟨nofun, nofun⟩
  · next usable isSome => rw [isSome, Except.ok.injEq, Option.some_inj]

theorem architecture_eq_undeclared_iff (read : architectures? source = some entries) :
    architecture source = .error undeclared ↔ ∀ entry ∈ entries, Text.Blank entry.toList := by
  rw [architecture, read, ← find?_eq_none_iff]
  dsimp only
  split
  · next isNone => exact ⟨fun _ => isNone, fun _ => rfl⟩
  · next usable isSome => rw [isSome]; exact ⟨nofun, nofun⟩

theorem architecture_ne_unreadable (read : architectures? source = some entries) :
    architecture source ≠ .error unreadable := by
  rw [architecture, read]
  dsimp only
  split
  · exact fun same => unreadable_ne_undeclared (Except.error.inj same).symm
  · nofun

def occurrences (members : List (Option String × Json)) : Nat :=
  (members.map Prod.fst).count (some "architectures")

def listed : List Json → Option (List String)
  | [] => some []
  | [value] => Json.asList Json.asText value
  | _ => none

theorem architectures?_of_spells (spells : Json.Spells source (.obj members))
    (legible : ∀ member ∈ members, member.1.isSome) :
    architectures? source = listed (named "architectures" members) := by
  have allNamed : (members.all fun member => member.1.isSome) = true := List.all_eq_true.mpr legible
  rw [architectures?, Json.parse?_eq_some_iff.mpr spells, Option.bind_some, ofJson?, Json.fields,
    if_pos allNamed, List.mapM_cons, List.mapM_nil, Json.findField]
  generalize named "architectures" members = values
  obtain _ | ⟨value, _ | ⟨second, rest⟩⟩ := values
  · rfl
  · rfl
  · rfl

/-- What a text makes known: the architecture if a list of strings has a usable entry, and otherwise
whether there is anything to read. -/
structure Tells (source : String) (members : List (Option String × Json)) : Prop where
  declared_iff : ∀ found, architecture source = .ok found ↔
    ∃ entries, (some "architectures", texts entries) ∈ members ∧ FirstUsable entries found
  undeclared_iff : architecture source = .error undeclared ↔
    ∀ value, (some "architectures", value) ∈ members →
      ∃ entries, value = texts entries ∧ ∀ entry ∈ entries, Text.Blank entry.toList
  unreadable_iff : architecture source = .error unreadable ↔
    ∃ value, (some "architectures", value) ∈ members ∧ ∀ entries, value ≠ texts entries

theorem tells_of_absent (known : architectures? source = some [])
    (absent : ∀ value, (some "architectures", value) ∉ members) : Tells source members where
  declared_iff found := by
    rw [architecture_eq_ok_iff known]
    refine ⟨fun usable => absurd usable not_firstUsable_nil, ?_⟩
    rintro ⟨entries, member, -⟩
    exact absurd member (absent _)
  undeclared_iff := by
    rw [architecture_eq_undeclared_iff known]
    exact ⟨fun _ value member => absurd member (absent value), fun _ _ => nofun⟩
  unreadable_iff := by
    refine ⟨fun unread => absurd unread (architecture_ne_unreadable known), ?_⟩
    rintro ⟨value, member, -⟩
    exact absurd member (absent value)

theorem tells_of_texts (known : architectures? source = some entries)
    (sole : ∀ value, (some "architectures", value) ∈ members ↔ value = texts entries) :
    Tells source members where
  declared_iff found := by
    rw [architecture_eq_ok_iff known]
    refine ⟨fun usable => ⟨entries, (sole _).mpr rfl, usable⟩, ?_⟩
    rintro ⟨more, member, usable⟩
    rwa [Json.texts_injective ((sole _).mp member)] at usable
  undeclared_iff := by
    rw [architecture_eq_undeclared_iff known]
    refine ⟨fun blank value member => ⟨entries, (sole value).mp member, blank⟩, fun allBlank => ?_⟩
    obtain ⟨more, same, blank⟩ := allBlank _ ((sole _).mpr rfl)
    rwa [Json.texts_injective same]
  unreadable_iff := by
    refine ⟨fun unread => absurd unread (architecture_ne_unreadable known), ?_⟩
    rintro ⟨value, member, noTexts⟩
    exact absurd ((sole value).mp member) (noTexts entries)

theorem tells_of_foreign {given : Json} (unread : architectures? source = none)
    (noTexts : ∀ entries, given ≠ texts entries)
    (sole : ∀ value, (some "architectures", value) ∈ members ↔ value = given) :
    Tells source members where
  declared_iff found := by
    rw [architecture_of_unread unread]
    refine ⟨nofun, ?_⟩
    rintro ⟨entries, member, -⟩
    exact absurd ((sole _).mp member).symm (noTexts entries)
  undeclared_iff := by
    rw [architecture_of_unread unread]
    refine ⟨fun same => absurd (Except.error.inj same) unreadable_ne_undeclared, fun allTexts => ?_⟩
    obtain ⟨entries, same, -⟩ := allTexts given ((sole _).mpr rfl)
    exact absurd same (noTexts entries)
  unreadable_iff := by
    rw [architecture_of_unread unread]
    exact ⟨fun _ => ⟨given, (sole _).mpr rfl, noTexts⟩, fun _ => rfl⟩

theorem tells (spells : Json.Spells source (.obj members))
    (legible : ∀ member ∈ members, member.1.isSome) (once : occurrences members ≤ 1) :
    Tells source members := by
  have known := architectures?_of_spells spells legible
  have mem : ∀ value,
      (some "architectures", value) ∈ members ↔ value ∈ named "architectures" members :=
    fun _ => Json.mem_named.symm
  rw [occurrences, ← Json.length_named] at once
  generalize named "architectures" members = values at known mem once
  match values with
  | [] => exact tells_of_absent known fun value member => List.not_mem_nil ((mem value).mp member)
  | [value] =>
    simp only [List.mem_singleton] at mem
    cases read : Json.asList Json.asText value with
    | none =>
      refine tells_of_foreign (known.trans read) (fun entries same => ?_) mem
      rw [Json.asList_asText_eq_some_iff.mpr same] at read
      cases read
    | some entries =>
      rw [Json.asList_asText_eq_some_iff.mp read] at mem
      exact tells_of_texts (known.trans read) mem
  | _ :: _ :: _ => exact absurd once (by simp)

/-- Two lists are never read, whatever they are. -/
theorem architecture_of_repeated (spells : Json.Spells source (.obj members))
    (legible : ∀ member ∈ members, member.1.isSome) (repeated : 2 ≤ occurrences members) :
    architecture source = .error unreadable := by
  have known := architectures?_of_spells spells legible
  rw [occurrences, ← Json.length_named] at repeated
  refine architecture_of_unread ?_
  generalize named "architectures" members = values at known repeated
  match values with
  | [] | [_] => exact absurd repeated (by simp)
  | _ :: _ :: _ => exact known

/-- The other members of a configuration have no say, whatever they are. A single list of strings
counts by its first usable entry; anything else, and any second member of the name, is malformed, and
a push passes over it. -/
theorem architecture_depends_on_its_list_alone (spells : Json.Spells source (.obj members))
    (legible : ∀ member ∈ members, member.1.isSome) :
    (∀ other others, Json.Spells other (.obj others) → (∀ member ∈ others, member.1.isSome) →
      named "architectures" others = named "architectures" members →
        architecture other = architecture source) ∧
    (2 ≤ occurrences members → architecture source = .error unreadable) ∧
    (occurrences members ≤ 1 → Tells source members) ∧
    ∀ e, architecture source = .error e →
      (∃ message, e = .malformed modelConfigFile message) ∧
      ∀ files options identity reference path action store, Reconcile.Serves files source →
        action ≠ .removed →
          Program.Leads (Store.answers (fun _ => False) files)
            (Push.reconcileFile options identity reference path action) store fun progress after =>
              progress = .clean ∧ after = store := by
  refine ⟨fun other others spellsToo legibleToo same => ?_, architecture_of_repeated spells legible,
    tells spells legible, fun e failed => ⟨?_, ?_⟩⟩
  · rw [architecture, architecture, architectures?_of_spells spells legible,
      architectures?_of_spells spellsToo legibleToo, same]
  · rcases architecture_error failed with rfl | rfl
    · exact ⟨_, rfl⟩
    · exact ⟨_, rfl⟩
  · intro files options identity reference path action store serves notRemoved
    exact Reconcile.leads_reconcileFile_of_unread options store serves notRemoved failed

/-- A list inside another member, a number out of range and half of a pair stand before the list. -/
def foreignText : String :=
  "\x7b\"hidden\":\x7b\"architectures\":[\"Inner\"]\x7d,\"scale\":1e999,\"odd\":\"\\ud800\"," ++
    "\"architectures\":[\"\",\" \\tBert\u3000\"]\x7d"

def listsOnce (entries : List String) : Json → Bool
  | .obj members =>
    (members.all fun member => member.1.isSome) && occurrences members = 1 &&
      (named "architectures" members).map (Json.asList Json.asText) = [some entries]
  | _ => false

theorem foreignText_is_read :
    ∃ members, Json.Spells foreignText (.obj members) ∧ (∀ member ∈ members, member.1.isSome) ∧
      occurrences members = 1 ∧ architecture foreignText = .ok "Bert" := by
  have read : (Json.parse? foreignText).any (listsOnce ["", " \tBert\u3000"]) = true := by
    decide +kernel
  obtain ⟨doc, parsed, lists⟩ := (Option.any_eq_true _ _).mp read
  obtain ⟨members, rfl⟩ : ∃ members, doc = .obj members := by
    cases doc with
    | obj members => exact ⟨members, rfl⟩
    | null | bool | int | real | str | arr => cases lists
  simp only [listsOnce, Bool.and_eq_true, List.all_eq_true, decide_eq_true_eq] at lists
  obtain ⟨⟨legible, once⟩, entries⟩ := lists
  obtain ⟨value, rest, sole, readValue, -⟩ := List.map_eq_cons_iff.mp entries
  have member : (some "architectures", Json.texts ["", " \tBert\u3000"]) ∈ members := by
    rw [← Json.mem_named, sole, ← Json.asList_asText_eq_some_iff.mp readValue]
    exact List.mem_cons_self
  have usable : FirstUsable ["", " \tBert\u3000"] "Bert" := by
    refine ⟨by decide, by simp [Text.Trimmed, Text.isBlank], [""], " \tBert\u3000", [], rfl, ?_,
      [' ', '\t'], ['\u3000'], by decide, ?_, ?_⟩
    all_goals simp [Text.Blank, Text.isBlank]
  have spells := Json.parse?_eq_some_iff.mp parsed
  obtain ⟨-, -, tells, -⟩ := architecture_depends_on_its_list_alone spells legible
  have found := ((tells once.le).declared_iff "Bert").mpr ⟨_, member, usable⟩
  exact ⟨members, spells, legible, once, found⟩

end ModelConfig

end ModelHub
