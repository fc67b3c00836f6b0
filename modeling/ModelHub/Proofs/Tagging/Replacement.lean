import Mathlib.Data.String.Basic
import ModelHub.Proofs.Engine.Keeps
import ModelHub.Proofs.Engine.Unfailing
import ModelHub.Proofs.Push.Change
import ModelHub.Proofs.Reconcile.Settlement
import ModelHub.Proofs.Store.Categories
import ModelHub.Proofs.Tagging.Regime
import ModelHub.Tagging.Service

/-! The declared tags of a repository are replaced as a whole or not at all.

The catalogue gets its new tags one by one before, and may keep some of them if the replacement does
not come about; no link depends on that. -/

namespace ModelHub

open Work (askStore leads_storeCall)

def DeclaredTag.Precedes (a b : DeclaredTag) : Prop :=
  a.group < b.group ∨ a.group = b.group ∧ a.name < b.name

namespace DeclaredTag

variable {a b c : DeclaredTag}

theorem Precedes.trans (first : a.Precedes b) (second : b.Precedes c) : a.Precedes c := by
  rcases first with less | ⟨same, less⟩ <;> rcases second with lessThen | ⟨sameThen, lessThen⟩
  · exact Or.inl (lt_trans less lessThen)
  · exact Or.inl (sameThen ▸ less)
  · exact Or.inl (same ▸ lessThen)
  · exact Or.inr ⟨same.trans sameThen, lt_trans less lessThen⟩

theorem precedes_of_le (isLe : a.le b = true) (differs : a ≠ b) : a.Precedes b := by
  unfold le at isLe
  split at isLe
  · next same =>
    refine Or.inr ⟨same, lt_of_le_of_ne (of_decide_eq_true isLe) fun sameName => differs ?_⟩
    cases a
    cases b
    simp_all
  · next other => exact Or.inl (lt_of_le_of_ne (of_decide_eq_true isLe) other)

theorem precedes_of_not_le (isNotLe : ¬a.le b = true) : b.Precedes a := by
  unfold le at isNotLe
  split at isNotLe
  · next same => exact Or.inr ⟨same.symm, not_le.mp fun isLe => isNotLe (decide_eq_true isLe)⟩
  · exact Or.inl (not_le.mp fun isLe => isNotLe (decide_eq_true isLe))

end DeclaredTag

namespace MetaTags

theorem pairwise_insert {tag : DeclaredTag} {tags : List DeclaredTag}
    (sorted : tags.Pairwise DeclaredTag.Precedes) :
    (insert tag tags).Pairwise DeclaredTag.Precedes := by
  induction tags with
  | nil => exact List.pairwise_singleton _ tag
  | cons head tail ih =>
    obtain ⟨first, rest⟩ := List.pairwise_cons.mp sorted
    unfold insert
    split
    · exact sorted
    · next differs =>
      split
      · next isLe =>
        have precedes := DeclaredTag.precedes_of_le isLe differs
        refine List.pairwise_cons.mpr ⟨List.forall_mem_cons.mpr ⟨precedes, ?_⟩, sorted⟩
        exact fun other member => precedes.trans (first other member)
      · next isNotLe =>
        refine List.pairwise_cons.mpr ⟨fun other member => ?_, ih rest⟩
        rcases mem_insert member with rfl | old
        · exact DeclaredTag.precedes_of_not_le isNotLe
        · exact first other old

theorem pairwise_declared {content : String} {tags : List DeclaredTag}
    (parsed : declared content = .ok tags) : tags.Pairwise DeclaredTag.Precedes := by
  have ofMapping : ∀ entries, (ofMapping entries).Pairwise DeclaredTag.Precedes := by
    intro entries
    unfold MetaTags.ofMapping
    induction groups.flatMap (ofGroup entries) with
    | nil => exact List.Pairwise.nil
    | cons tag rest ih => exact pairwise_insert ih
  unfold declared at parsed
  split at parsed
  · obtain rfl := Except.ok.inj parsed
    exact List.Pairwise.nil
  · split at parsed
    · obtain rfl := Except.ok.inj parsed
      exact List.Pairwise.nil
    · split at parsed
      · cases parsed
      · obtain rfl := Except.ok.inj parsed
        exact ofMapping _
      · obtain rfl := Except.ok.inj parsed
        exact List.Pairwise.nil
      · cases parsed

end MetaTags

namespace Store

/-- The declared tags of a repository have become those of a list, and all other links of all
repositories are as they were. -/
structure Redeclares (store : Store) (repositoryId : Int) (scope : TagScope)
    (declared : List DeclaredTag) (after : Store) : Prop where
  declared : ∀ key : TagKey, key.category = TagCategory.declared.name →
    (after.Bears repositoryId key ↔ ∃ tag ∈ declared, tag.key scope = key)
  others : ∀ link : TagLink, ¬after.isLinkOf repositoryId .declared link →
    (link ∈ after.links ↔ link ∈ store.links)

variable {store middle after : Store} {repositoryId : Int} {scope : TagScope}
  {declared : List DeclaredTag} {tags : List Tag} {link : TagLink}

theorem mem_links_linkAll : link ∈ (store.linkAll repositoryId tags).links ↔
    link ∈ store.links ∨ ∃ tag ∈ tags, link = { repositoryId, tagId := tag.id } := by
  induction tags generalizing store with
  | nil => simp [linkAll]
  | cons tag rest ih =>
    show link ∈ ((store.link repositoryId tag.id).2.linkAll repositoryId rest).links ↔ _
    rw [ih, List.exists_mem_cons_iff, ← or_assoc]
    refine or_congr_left (mem_insertNew.trans or_comm)

theorem tags_linkAll : (store.linkAll repositoryId tags).tags = store.tags := by
  induction tags generalizing store with
  | nil => rfl
  | cons tag rest ih => exact ih

theorem redeclares_replaceTags (lawful : middle.Lawful) (links : middle.links = store.links)
    (listed : ∀ tag ∈ tags, middle.Lists tag)
    (keys : tags.map Tag.key = declared.map (DeclaredTag.key scope))
    (replaced : middle.replaceTags repositoryId .declared tags = .ok after) :
    store.Redeclares repositoryId scope declared after where
  declared := by
    intro key isDeclared
    have profile := profile_replaceTags lawful listed replaced
    have same : (∃ tag ∈ tags, tag.key = key) ↔ ∃ tag ∈ declared, tag.key scope = key := by
      rw [← List.mem_map, keys, List.mem_map]
    show key ∈ (after.profile repositoryId).tags ↔ _
    rw [profile, ← same]
    exact or_iff_right fun before => before.2 isDeclared
  others := by
    intro link isOther
    unfold replaceTags at replaced
    split at replaced
    · cases replaced
    · next allOf =>
      obtain rfl := Except.ok.inj replaced
      have catalogue : ((middle.unlinkCategory repositoryId .declared).2.linkAll repositoryId
          tags).tags = middle.tags := tags_linkAll
      have isOtherBefore : ¬middle.isLinkOf repositoryId .declared link := by
        simpa only [isLinkOf, hasCategory, catalogue] using isOther
      rw [mem_links_linkAll, ← links]
      constructor
      · rintro (kept | ⟨tag, member, rfl⟩)
        · exact List.mem_of_mem_filter kept
        · have isOf : tag.category = .declared := by
            simpa using List.find?_eq_none.mp allOf tag member
          have isDeclared := (listed tag member).hasCategory
          rw [isOf] at isDeclared
          exact absurd (by simp [isLinkOf, isDeclared]) isOtherBefore
      · intro linked
        refine Or.inl (List.mem_filter.mpr ⟨linked, ?_⟩)
        exact Bool.not_eq_true' _ ▸ Bool.eq_false_iff.mpr isOtherBefore

end Store

namespace Tagging

variable {store : Store} {scope : TagScope} {owner name content : String}

theorem leads_ensureDeclared (scope : TagScope) (declared : List DeclaredTag) (lawful : store.Lawful) :
    Work.Leads Store.anyAnswers (declared.mapM (ensureDeclared scope)) store
      (fun tags after => after.Lawful ∧ after.links = store.links ∧ store.tags ⊆ after.tags ∧
        (∀ tag ∈ tags, after.Lists tag) ∧
        tags.map Tag.key = declared.map (DeclaredTag.key scope))
      fun _ after => after.links = store.links := by
  induction declared generalizing store with
  | nil => exact ⟨lawful, rfl, List.Subset.refl _, fun _ member => absurd member List.not_mem_nil, rfl⟩
  | cons tag rest ih =>
    rw [List.mapM_cons]
    refine Work.leads_bind.mpr (leads_storeCall ?_ fun _ => rfl)
    intro ensured middle performed
    have result : store.ensureTag scope .declared tag.group tag.name = (ensured, middle) := by
      obtain ⟨answer, same⟩ := Prod.mk.inj performed
      exact Prod.ext (Except.ok.inj answer) same
    obtain ⟨listed, key⟩ := store.ensureTag_lists scope .declared tag.group tag.name
    have links := store.ensureTag_links scope .declared tag.group tag.name
    have lawfulMiddle := lawful.ensureTag scope .declared tag.group tag.name
    have grown : store.tags ⊆ (store.ensureTag scope .declared tag.group tag.name).2.tags := by
      rcases store.ensureTag_cases scope .declared tag.group tag.name with same | ⟨_, added, -⟩
      · exact same ▸ List.Subset.refl _
      · exact added ▸ List.subset_append_left _ _
    rw [result] at listed key links lawfulMiddle grown
    refine Work.leads_bind.mpr ((ih lawfulMiddle).mono ?_ fun _ after same => same.trans links)
    rintro tags after ⟨lawfulAfter, linksAfter, grownAfter, allListed, keys⟩
    refine ⟨lawfulAfter, linksAfter.trans links, List.Subset.trans grown grownAfter, ?_, ?_⟩
    · exact List.forall_mem_cons.mpr ⟨listed.mono grownAfter, allListed⟩
    · rw [List.map_cons, List.map_cons, keys, key]
      rfl

theorem leads_applyDeclared (lawful : store.Lawful) :
    Work.Leads Store.anyAnswers (applyDeclared scope owner name content) store
      (fun tags after => ∃ declared repository, MetaTags.declared content = .ok declared ∧
        store.findRepository scope.repoType owner name = .ok (some repository) ∧
        tags.map Tag.key = declared.map (DeclaredTag.key scope) ∧
        store.Redeclares repository.id scope declared after)
      fun _ after => after.links = store.links := by
  unfold applyDeclared
  cases parsed : MetaTags.declared content with
  | error e => exact rfl
  | ok declared =>
    refine Work.leads_bind.mpr (Work.leads_pure.mpr (Work.leads_bind.mpr (Work.leads_bind.mpr ?_)))
    refine leads_storeCall ?_ fun _ => rfl
    intro found _ performed
    obtain ⟨answer, rfl⟩ := Prod.mk.inj performed
    cases found with
    | none => exact rfl
    | some repository =>
      refine Work.leads_bind.mpr ((leads_ensureDeclared scope declared lawful).mono ?_ fun _ _ => id)
      rintro tags middle ⟨lawfulMiddle, links, -, listed, keys⟩
      refine Work.leads_bind.mpr (leads_storeCall ?_ fun _ => links)
      intro _ after performedReplacement
      simp only [Store.perform] at performedReplacement
      split at performedReplacement
      · next replaced =>
        obtain ⟨-, rfl⟩ := Prod.mk.inj performedReplacement
        exact ⟨declared, repository, rfl, answer, keys,
          Store.redeclares_replaceTags lawfulMiddle links listed keys replaced⟩
      · cases (Prod.mk.inj performedReplacement).1

theorem leads_clearDeclared :
    Work.Leads Store.anyAnswers (clearDeclared scope owner name) store
      (fun count after => ∃ repository,
        store.findRepository scope.repoType owner name = .ok (some repository) ∧
        count = store.links.countP (store.isLinkOf repository.id .declared) ∧
        after = (store.unlinkCategory repository.id .declared).2)
      fun _ after => after = store := by
  refine Work.leads_bind.mpr (Work.leads_bind.mpr (leads_storeCall ?_ fun _ => rfl))
  intro found _ performed
  obtain ⟨answer, rfl⟩ := Prod.mk.inj performed
  cases found with
  | none => exact rfl
  | some repository =>
    refine leads_storeCall ?_ fun _ => rfl
    intro count after performedRemoval
    obtain ⟨counted, rfl⟩ := Prod.mk.inj performedRemoval
    obtain rfl := Except.ok.inj counted
    exact ⟨repository, answer, rfl, rfl⟩

theorem sure_leads_applyNothing (nothing : MetaTags.declared content = .ok []) :
    Work.Leads Store.sureAnswers (applyDeclared scope owner name content) store
      (fun tags after => tags = [] ∧ ∃ repository,
        store.findRepository scope.repoType owner name = .ok (some repository) ∧
        after = (store.unlinkCategory repository.id .declared).2)
      fun e after => after = store ∧
        store.findRepository scope.repoType owner name = .ok none ∧
        e = missing scope.repoType owner name := by
  unfold applyDeclared
  rw [nothing]
  refine Work.leads_bind.mpr (Work.leads_pure.mpr (Work.leads_bind.mpr ?_))
  refine sure_leads_findRepository (fun repository found => ?_) fun absent => ⟨rfl, absent, rfl⟩
  refine Work.leads_bind.mpr (Work.leads_pure.mpr (Work.leads_bind.mpr ?_))
  refine Work.sure_leads_storeCall ?_
  intro _ _ performed
  obtain ⟨-, rfl⟩ := Prod.mk.inj performed
  exact ⟨rfl, repository, found, rfl⟩

theorem sure_leads_clearDeclared :
    Work.Leads Store.sureAnswers (clearDeclared scope owner name) store
      (fun _ after => ∃ repository,
        store.findRepository scope.repoType owner name = .ok (some repository) ∧
        after = (store.unlinkCategory repository.id .declared).2)
      fun e after => after = store ∧
        store.findRepository scope.repoType owner name = .ok none ∧
        e = missing scope.repoType owner name := by
  refine Work.leads_bind.mpr (sure_leads_findRepository (fun repository found => ?_)
    fun absent => ⟨rfl, absent, rfl⟩)
  refine Work.sure_leads_storeCall ?_
  intro count _ performed
  obtain ⟨-, rfl⟩ := Prod.mk.inj performed
  exact ⟨repository, found, rfl⟩

/-- If the declared tags of a repository are replaced, they are those of the README, in order, and every
other link is as it was. If this fails, for whatever reason, no link has changed. To take them all away
does to the links what a README does that declares nothing, and fails like it if the repository is
missing; the links that go are counted. -/
theorem declared_tags_are_replaced (lawful : store.Lawful) {applying clearing : Surroundings}
    {applied : Except HubError (List Tag)} {cleared : Except HubError Nat}
    {dialogue clearance : Dialogue}
    (applies : applying.run (Work.attempt (applyDeclared scope owner name content)) store =
      (applied, dialogue))
    (clears : clearing.run (Work.attempt (clearDeclared scope owner name)) store =
      (cleared, clearance)) :
    (∀ tags, applied = .ok tags → ∃ declared repository,
      MetaTags.declared content = .ok declared ∧
      store.findRepository scope.repoType owner name = .ok (some repository) ∧
      tags.map Tag.key = declared.map (DeclaredTag.key scope) ∧
      declared.Pairwise DeclaredTag.Precedes ∧
      store.Redeclares repository.id scope declared dialogue.store) ∧
    (∀ e, applied = .error e → dialogue.store.links = store.links) ∧
    (∀ count, cleared = .ok count → ∃ repository,
      store.findRepository scope.repoType owner name = .ok (some repository) ∧
      count = store.links.countP (store.isLinkOf repository.id .declared) ∧
      store.Redeclares repository.id scope [] clearance.store) ∧
    (∀ e, cleared = .error e → clearance.store.links = store.links) ∧
    (MetaTags.declared content = .ok [] → dialogue.Unfailing → clearance.Unfailing →
      clearance.store.links = dialogue.store.links ∧
      ((applied = .ok [] ∧ ∃ count, cleared = .ok count) ∨
        store.findRepository scope.repoType owner name = .ok none ∧
          applied = .error (missing scope.repoType owner name) ∧
          cleared = .error (missing scope.repoType owner name))) := by
  have replaced := Surroundings.attempt_of_leads (leads_applyDeclared lawful) applies
  have removed := Surroundings.attempt_of_leads leads_clearDeclared clears
  refine ⟨?_, ?_, ?_, ?_, ?_⟩
  · rintro tags rfl
    obtain ⟨declared, repository, parsed, found, keys, redeclares⟩ := replaced
    exact ⟨declared, repository, parsed, found, keys, MetaTags.pairwise_declared parsed, redeclares⟩
  · rintro e rfl
    exact replaced
  · rintro count rfl
    obtain ⟨repository, found, counted, isCleared⟩ := removed
    refine ⟨repository, found, counted, ?_⟩
    rw [isCleared]
    have none : ∀ tag ∈ ([] : List Tag), store.Lists tag := nofun
    exact Store.redeclares_replaceTags lawful rfl none rfl rfl
  · rintro e rfl
    rw [show clearance.store = store from removed]
  · intro nothing unfailing unfailingThen
    have emptied := Surroundings.attempt_of_sure_leads (sure_leads_applyNothing nothing) applies unfailing
    have cleaned := Surroundings.attempt_of_sure_leads sure_leads_clearDeclared clears unfailingThen
    cases applied with
    | ok tags =>
      obtain ⟨rfl, repository, found, isEmptied⟩ := emptied
      cases cleared with
      | ok count =>
        obtain ⟨other, foundThen, isCleaned⟩ := cleaned
        obtain rfl := Option.some.inj (Except.ok.inj (found.symm.trans foundThen))
        exact ⟨by rw [isCleaned, isEmptied], Or.inl ⟨rfl, count, rfl⟩⟩
      | error e => cases found.symm.trans cleaned.2.1
    | error e =>
      obtain ⟨isSame, absent, rfl⟩ := emptied
      cases cleared with
      | ok count =>
        obtain ⟨other, foundThen, -⟩ := cleaned
        cases absent.symm.trans foundThen
      | error e =>
        obtain ⟨isSameThen, -, rfl⟩ := cleaned
        exact ⟨by rw [isSameThen, isSame], Or.inr ⟨absent, rfl, rfl⟩⟩

/-- A README with other tags than those of the model, one of them given twice. -/
def relicensed : String := "---\ntags: [nlp, chat, nlp]\nlicense: apache\n---\n"

def licensed : Store where
  repositories :=
    [{ id := 1, repoType := .model, owner := "acme", name := "bert", defaultBranch := "" }]
  tags :=
    [{ id := 1, scope := "model", category := "runtime_framework", group := "", name := "vllm" },
      { id := 2, scope := "model", category := "meta", group := "license", name := "mit" },
      { id := 3, scope := "model", category := "meta", group := "tags", name := "nlp" }]
  links := [{ repositoryId := 1, tagId := 1 }, { repositoryId := 1, tagId := 2 },
    { repositoryId := 1, tagId := 3 }]
  lastRepositoryId := 1
  lastTagId := 3

theorem licensed_lawful : licensed.Lawful := by
  constructor <;> decide

def applying (content : String) : Except HubError (List Tag) × Dialogue :=
  (Surroundings.calm bertFiles).run
    (Work.attempt (applyDeclared .model "acme" "bert" content)) licensed

def clearing : Except HubError Nat × Dialogue :=
  (Surroundings.calm bertFiles).run (Work.attempt (clearDeclared .model "acme" "bert")) licensed

theorem licensed_is_relicensed :
    (∃ tags, (applying relicensed).1 = .ok tags ∧ tags.map Tag.key =
      [.of .model .declared "license" "apache", .of .model .declared "tags" "chat",
        .of .model .declared "tags" "nlp"]) ∧
      ¬(applying relicensed).2.store.Bears 1 (.of .model .declared "license" "mit") ∧
      clearing.1 = .ok 2 ∧ clearing.2.store.links = (applying "").2.store.links := by
  have parses : MetaTags.declared relicensed =
      .ok [⟨"license", "apache"⟩, ⟨"tags", "chat"⟩, ⟨"tags", "nlp"⟩] := by decide +kernel
  have found : licensed.findRepository .model "acme" "bert" = .ok (some Reconcile.bert) := by
    decide +kernel
  have succeeded : (applying relicensed).1 =
      .ok [⟨4, .model, .declared, "license", "apache"⟩, ⟨5, .model, .declared, "tags", "chat"⟩,
        ⟨3, .model, .declared, "tags", "nlp"⟩] := by decide +kernel
  obtain ⟨replaced, -⟩ := declared_tags_are_replaced licensed_lawful
    (Prod.eta (applying relicensed)).symm (Prod.eta clearing).symm
  obtain ⟨declared, repository, parsed, isThere, keys, -, redeclares⟩ := replaced _ succeeded
  obtain rfl := Except.ok.inj (parses.symm.trans parsed)
  obtain rfl := Option.some.inj (Except.ok.inj (found.symm.trans isThere))
  obtain ⟨-, -, -, -, emptied⟩ := declared_tags_are_replaced licensed_lawful
    (Prod.eta (applying "")).symm (Prod.eta clearing).symm
  refine ⟨⟨_, succeeded, keys⟩, ?_, by decide +kernel, ?_⟩
  · intro borne
    have isDeclared := (redeclares.declared _ rfl).mp borne
    revert isDeclared
    decide +kernel
  · exact (emptied (by decide +kernel) (by decide +kernel) (by decide +kernel)).1

end Tagging

end ModelHub
