import Mathlib.Logic.Relation
import ModelHub.Proofs.Push.Gates

namespace ModelHub

namespace Store

inductive Entry : Store → Store → Prop where
  | upsertRepository {store : Store} (repoType : RepoType) (owner name defaultBranch : String) :
      Entry store (store.upsertRepository repoType owner name defaultBranch)
  | markMirror {store : Store} (repositoryId : Int) (source : String) :
      Entry store (store.markMirror repositoryId source)
  | upsertFramework {store : Store} (framework : Framework) :
      Entry store (store.upsertFramework framework)
  | removeFramework {store : Store} (id : Int) : Entry store (store.removeFramework id).2
  | addCompatibility {store : Store} (row : CompatibilityRow) :
      Entry store (store.addCompatibility row)
  | addResource {store : Store} (resource model : String) :
      Entry store (store.addResource resource model)

abbrev Entries := Relation.ReflTransGen Entry

/-- A store grows by registrations, catalogues and pushes, whatever comes of them. -/
inductive Step : Store → Store → Prop where
  | putRepository {store : Store} (repoType : RepoType) (owner name defaultBranch : String) :
      Step store (store.putRepository repoType owner name defaultBranch).2
  | markMirror {store : Store} (repositoryId : Int) (source : String) :
      Step store (store.markMirror repositoryId source)
  | load {store : Store} (catalogue : Catalogue) : Step store (store.load catalogue).2
  /-- A catalogue of which a later order fails has been loaded up to there. -/
  | loadPart {store after : Store} (entry : Entry store after) : Step store after
  | push {store : Store} (surroundings : Surroundings) (options : Push.Options)
      (event : PushEvent) :
      Step store (surroundings.run (Push.handle options event) store).2.store

abbrev Grows := Relation.ReflTransGen Step

variable {store after : Store}

theorem entry_putRepository (repoType : RepoType) (owner name defaultBranch : String) :
    Entry store (store.putRepository repoType owner name defaultBranch).2 := by
  unfold putRepository
  dsimp only
  split <;> exact .upsertRepository repoType owner name defaultBranch

theorem entries_loadRepository (entry : CatalogueRepository) :
    Entries store (store.loadRepository entry).2 := by
  have put : Entry store (store.putRepository entry.repoType entry.owner entry.name
    entry.defaultBranch).2 := entry_putRepository _ _ _ _
  unfold loadRepository
  split
  · next e middle same =>
    rw [same] at put
    exact .single put
  · next repository middle same =>
    rw [same] at put
    split
    · exact .single put
    · exact .tail (.single put) (.markMirror _ _)

theorem entries_loadRepositories (entries : List CatalogueRepository) :
    Entries store (loadRepositories entries store).2 := by
  induction entries generalizing store with
  | nil => exact .refl
  | cons entry rest ih =>
    have first : Entries store (store.loadRepository entry).2 := entries_loadRepository entry
    unfold loadRepositories
    split
    · next e middle same =>
      rw [same] at first
      exact first
    · next middle same =>
      rw [same] at first
      exact first.trans ih

theorem entries_foldl {α : Type} {load : Store → α → Store}
    (entries : ∀ store value, Entries store (load store value)) (values : List α) :
    Entries store (values.foldl load store) := by
  induction values generalizing store with
  | nil => exact .refl
  | cons value rest ih => exact (entries store value).trans ih

theorem entries_loadFramework (store : Store) (entry : CatalogueFramework) :
    Entries store (loadFramework store entry) := by
  let named := store.upsertFramework entry.framework
  let equipped := entry.architectures.foldl
    (fun store name => store.addArchitecture entry.framework.id name) named
  have architectures : Entries named equipped :=
    entries_foldl (fun _ _ => .single (.addCompatibility _)) _
  have models : Entries equipped (loadFramework store entry) :=
    entries_foldl (fun _ _ => .single (.addCompatibility _)) _
  exact .head (.upsertFramework entry.framework) (architectures.trans models)

theorem entries_loadResource (store : Store) (entry : CatalogueResource) :
    Entries store (loadResource store entry) :=
  entries_foldl (fun _ _ => .single (.addResource _ _)) _

theorem entries_load (catalogue : Catalogue) : Entries store (store.load catalogue).2 := by
  have repositories : Entries store (loadRepositories catalogue.repositories store).2 :=
    entries_loadRepositories catalogue.repositories
  unfold load
  split
  · next e middle same =>
    rw [same] at repositories
    exact repositories
  · next middle same =>
    rw [same] at repositories
    let equipped := catalogue.frameworks.foldl loadFramework middle
    let current := catalogue.retired.foldl retire equipped
    have frameworks : Entries middle equipped := entries_foldl entries_loadFramework _
    have retired : Entries equipped current :=
      entries_foldl (fun _ id => .single (.removeFramework id)) _
    have resources : Entries current (catalogue.resources.foldl loadResource current) :=
      entries_foldl entries_loadResource _
    exact repositories.trans (frameworks.trans (retired.trans resources))

structure Sound (store : Store) : Prop where
  lawful : store.Lawful
  wellFormed : store.WellFormed

theorem sound_empty : ({} : Store).Sound := ⟨lawful_empty, wellFormed_empty⟩

theorem Entry.lawful (entry : Entry store after) (lawful : store.Lawful) : after.Lawful := by
  cases entry with
  | upsertRepository repoType owner name defaultBranch =>
    exact lawful.upsertRepository repoType owner name defaultBranch
  | markMirror repositoryId source => exact lawful.markMirror repositoryId source
  | upsertFramework framework => exact lawful.upsertFramework framework
  | removeFramework id => exact lawful.removeFramework id
  | addCompatibility row => exact lawful.addCompatibility row
  | addResource resource model => exact lawful.addResource resource model

/-- Catalogues say nothing about what is derived, and take no repository away. -/
theorem Entry.leaves (entry : Entry store after) :
    (∀ id repoType, store.Houses id repoType → after.Houses id repoType) ∧
      after.tags = store.tags ∧ after.links = store.links ∧
      after.associations = store.associations := by
  cases entry with
  | upsertRepository repoType owner name defaultBranch =>
    refine ⟨fun _ _ housed => housed.upsertRepository repoType owner name defaultBranch, ?_⟩
    unfold Store.upsertRepository
    split <;> exact ⟨rfl, rfl, rfl⟩
  | markMirror repositoryId source =>
    unfold Store.markMirror
    split <;> exact ⟨fun _ _ => id, rfl, rfl, rfl⟩
  | upsertFramework framework =>
    unfold Store.upsertFramework
    split <;> exact ⟨fun _ _ => id, rfl, rfl, rfl⟩
  | removeFramework | addCompatibility | addResource => exact ⟨fun _ _ => id, rfl, rfl, rfl⟩

theorem Entries.keeps (entries : Entries store after) (sound : store.Sound) :
    after.Sound ∧ after.tags = store.tags := by
  induction entries with
  | refl => exact ⟨sound, rfl⟩
  | tail _ entry ih =>
    obtain ⟨soundBefore, same⟩ := ih
    obtain ⟨houses, tags, links, associations⟩ := entry.leaves
    refine ⟨⟨entry.lawful soundBefore.lawful, ?_⟩, tags.trans same⟩
    exact soundBefore.wellFormed.of_less houses tags (links ▸ List.Subset.refl _)
      (associations ▸ List.Sublist.refl _)

theorem Step.keeps (step : Step store after) (sound : store.Sound) :
    after.Sound ∧ store.tags ⊆ after.tags := by
  have ofEntries : Entries store after → after.Sound ∧ store.tags ⊆ after.tags := by
    intro entries
    obtain ⟨soundAfter, same⟩ := entries.keeps sound
    exact ⟨soundAfter, same ▸ List.Subset.refl _⟩
  cases step with
  | putRepository repoType owner name defaultBranch =>
    exact ofEntries (.single (entry_putRepository repoType owner name defaultBranch))
  | markMirror repositoryId source => exact ofEntries (.single (.markMirror repositoryId source))
  | load catalogue => exact ofEntries (entries_load catalogue)
  | loadPart entry => exact ofEntries (.single entry)
  | push surroundings options event =>
    have holds : (Regime.free store).Holds ∅
        (surroundings.run (Push.handle options event) store).2.store :=
      Regime.holds_of_push sound.lawful (fun _ _ => trivial) rfl
    exact ⟨⟨holds.lawful, holds.wellFormed sound.wellFormed⟩, holds.tags.subset⟩

theorem Grows.keeps (grows : Grows store after) (sound : store.Sound) :
    after.Sound ∧ store.tags ⊆ after.tags := by
  induction grows with
  | refl => exact ⟨sound, List.Subset.refl _⟩
  | tail _ step ih =>
    obtain ⟨soundAfter, grown⟩ := step.keeps ih.1
    exact ⟨soundAfter, List.Subset.trans ih.2 grown⟩

theorem Sound.housed_model (sound : store.Sound) {category : TagCategory}
    (ofModels : category = .runtimeFramework ∨ category = .resource) {link : TagLink}
    (member : link ∈ store.linksOf category) : store.Houses link.repositoryId .model := by
  obtain ⟨linked, isOf⟩ := List.mem_filter.mp member
  obtain ⟨tag, listed, same, housed⟩ := sound.wellFormed.links link linked
  rw [← same] at isOf
  have inCategory : tag.category = category :=
    sound.lawful.hasCategory_unique listed.hasCategory isOf
  have admitted := sound.wellFormed.admits listed
  rw [inCategory] at admitted
  have isModel : tag.scope = .model := by
    rcases ofModels with rfl | rfl <;> exact admitted.2
  rw [isModel] at housed
  exact housed

theorem Sound.unlinked (sound : store.Sound) {row : RepositoryRow}
    (member : row ∈ store.repositories) (bearsNone : TagScope.ofRepoType? row.repoType = none) :
    ∀ link ∈ store.links, link.repositoryId ≠ row.id := by
  intro link linked here
  obtain ⟨tag, -, -, other, otherMember, same, isOf⟩ := sound.wellFormed.links link linked
  obtain rfl : other = row :=
    List.inj_on_of_nodup_map sound.lawful.repositoryIds otherMember member (same.trans here)
  rw [isOf] at bearsNone
  cases scope : tag.scope <;> simp [scope, TagScope.repoType, TagScope.ofRepoType?] at bearsNone

/-- A store that has grown from the empty one, by any registrations, catalogues and pushes, whatever
failed on the way, obeys the laws of its tables and is well-formed. Code and space repositories bear
no tags, and only models have framework and resource tags. However the store grows on, a tag that is
there stays, and no other tag ever has its key. -/
theorem every_grown_store_is_sound (grows : Grows {} store) :
    store.Lawful ∧ store.WellFormed ∧
    (∀ row ∈ store.repositories, TagScope.ofRepoType? row.repoType = none →
      ∀ link ∈ store.links, link.repositoryId ≠ row.id) ∧
    (∀ category, category = .runtimeFramework ∨ category = .resource →
      ∀ link ∈ store.linksOf category, store.Houses link.repositoryId .model) ∧
    ∀ later, Grows store later → ∀ row ∈ store.tags, row ∈ later.tags ∧
      ∀ other ∈ later.tags, other.key = row.key → other.id = row.id := by
  obtain ⟨sound, -⟩ := grows.keeps sound_empty
  refine ⟨sound.lawful, sound.wellFormed, fun _ member => sound.unlinked member,
    fun _ ofModels _ member => sound.housed_model ofModels member, ?_⟩
  intro later growsOn row member
  obtain ⟨soundLater, grown⟩ := growsOn.keeps sound
  refine ⟨grown member, fun other otherMember sameKey => ?_⟩
  exact congrArg TagRow.id (soundLater.lawful.tag_of_key otherMember (grown member) sameKey)

def bertCatalogue : Catalogue where
  repositories := [⟨.model, "acme", "bert", "main", none⟩]
  frameworks := [⟨⟨7, "vLLM", "vllm", 1⟩, ["BertModel"], []⟩]

def catalogued : Store := (({} : Store).load bertCatalogue).2

def pushedOnce : Store :=
  ((Surroundings.calm bertFiles).run (Push.handle .plain bertPush) catalogued).2.store

def pushedTwice : Store :=
  ((Surroundings.calm bertFiles).run (Push.handle .plain
    { bertPush with commits := [{ removed := [modelConfigFile] }] }) pushedOnce).2.store

theorem bert_grows : Grows {} pushedOnce ∧ pushedOnce.links = [⟨1, 1⟩] ∧
    pushedOnce.WellFormed ∧ pushedTwice.links = [] ∧
    ∀ row ∈ pushedOnce.tags, row ∈ pushedTwice.tags := by
  have loaded : Step {} catalogued := .load bertCatalogue
  have pushed : Step catalogued pushedOnce := .push _ _ _
  have pushedAgain : Step pushedOnce pushedTwice := .push _ _ _
  have grows : Grows {} pushedOnce := .tail (.single loaded) pushed
  obtain ⟨-, wellFormed, -, -, permanent⟩ := every_grown_store_is_sound grows
  refine ⟨grows, by decide +kernel, wellFormed, by decide +kernel, ?_⟩
  intro row member
  exact (permanent pushedTwice (.single pushedAgain) row member).1

end Store

end ModelHub
