import ModelHub.Proofs.Push.Growth
import ModelHub.Proofs.Store.Compatibility
import ModelHub.Proofs.Store.Register

namespace ModelHub

theorem insertAll_append {α : Type} [DecidableEq α] (rows more table : List α) :
    insertAll (rows ++ more) table = insertAll more (insertAll rows table) := List.foldl_append

namespace Register

def frameworks : Register CatalogueFramework Framework Int where
  key entry := entry.framework.id
  rowKey := Framework.id
  edit entry _ := entry.framework
  rowKey_edit _ _ _ := rfl
  edit_edit _ _ _ := rfl

def mirrors : Register (Int × String) MirrorRow Int where
  key := Prod.fst
  rowKey := MirrorRow.repositoryId
  edit entry row := { row with source := entry.2 }
  rowKey_edit _ _ same := same
  edit_edit _ _ _ := rfl

def repositories : Register CatalogueRepository RepositoryRow (RepoType × String × String) where
  key entry := (entry.repoType, entry.owner, entry.name)
  rowKey := RepositoryRow.address
  edit entry row := { row with defaultBranch := entry.defaultBranch }
  rowKey_edit _ _ same := same
  edit_edit _ _ _ := rfl

end Register

def CatalogueFramework.rows (entry : CatalogueFramework) : List CompatibilityRow :=
  entry.architectures.map (fun architecture =>
      { frameworkId := entry.framework.id, architecture, model := "" }) ++
    entry.models.map fun model => { frameworkId := entry.framework.id, architecture := "", model }

def CatalogueResource.rows (entry : CatalogueResource) : List ResourceRow :=
  entry.models.map fun model => { resource := entry.name, model }

def RepositoryRow.stamp (row : RepositoryRow) : Int × Option String := (row.id, row.updatedAt)

def MirrorRow.stamp (row : MirrorRow) : Int × Option String := (row.repositoryId, row.updatedAt)

def Unstamped (old new : List (Int × Option String)) : Prop :=
  ∃ ids : List Int, new = old ++ ids.map fun id => (id, none)

namespace Unstamped

theorem rfl {stamps : List (Int × Option String)} : Unstamped stamps stamps :=
  ⟨[], (List.append_nil _).symm⟩

theorem of_eq {old new : List (Int × Option String)} (same : new = old) : Unstamped old new :=
  same ▸ rfl

theorem trans {old middle new : List (Int × Option String)} (first : Unstamped old middle)
    (second : Unstamped middle new) : Unstamped old new := by
  obtain ⟨ids, isMiddle⟩ := first
  obtain ⟨more, isNew⟩ := second
  exact ⟨ids ++ more, by rw [isNew, isMiddle, List.map_append, List.append_assoc]⟩

end Unstamped

structure Store.KeepsDerived (store after : Store) : Prop where
  tags : after.tags = store.tags
  links : after.links = store.links
  associations : after.associations = store.associations
  repositories : Unstamped (store.repositories.map RepositoryRow.stamp)
    (after.repositories.map RepositoryRow.stamp)
  mirrors : Unstamped (store.mirrors.map MirrorRow.stamp) (after.mirrors.map MirrorRow.stamp)

namespace Store

variable {store middle after : Store}

theorem repositoryRow?_eq (repoType : RepoType) (owner name : String) :
    store.repositoryRow? repoType owner name =
      Register.repositories.row? (repoType, owner, name) store.repositories := by
  unfold repositoryRow? Register.row?
  congr 1
  funext row
  rw [Bool.eq_iff_iff, RepositoryRow.isAt_iff, decide_eq_true_eq]
  rfl

theorem writes_upsertFramework (entry : CatalogueFramework) :
    Register.frameworks.Writes entry store.frameworks
      (store.upsertFramework entry.framework).frameworks := by
  unfold upsertFramework
  split
  · next row found =>
    obtain ⟨member, same⟩ := Register.frameworks.of_row?_eq_some found
    exact .amended member same
  · next absent =>
    exact .appended (Register.frameworks.row?_eq_none.mp absent) rfl rfl

theorem writes_markMirror (repositoryId : Int) (source : String) :
    Register.mirrors.Writes (repositoryId, source) store.mirrors
      (store.markMirror repositoryId source).mirrors := by
  unfold markMirror
  split
  · next row found =>
    obtain ⟨member, same⟩ := Register.mirrors.of_row?_eq_some found
    exact .amended member same
  · next absent =>
    exact .appended (Register.mirrors.row?_eq_none.mp absent) rfl rfl

theorem writes_upsertRepository (entry : CatalogueRepository) :
    Register.repositories.Writes entry store.repositories
      (store.upsertRepository entry.repoType entry.owner entry.name
        entry.defaultBranch).repositories := by
  unfold upsertRepository
  dsimp only
  split
  · next row found =>
    rw [repositoryRow?_eq] at found
    obtain ⟨member, same⟩ := Register.repositories.of_row?_eq_some found
    have amended : Register.repositories.Writes entry store.repositories
      (store.repositories.map (Register.repositories.amend entry)) := .amended member same
    convert amended using 2
    funext other
    unfold Register.amend
    congr 1
    exact propext RepositoryRow.isAt_iff
  · next absent =>
    rw [repositoryRow?_eq] at absent
    exact .appended (Register.repositories.row?_eq_none.mp absent) rfl rfl

theorem foldl_addCompatibility {α : Type} (values : List α) (store : Store)
    (rowOf : α → CompatibilityRow) :
    values.foldl (fun store value => store.addCompatibility (rowOf value)) store =
      { store with compatibilities := insertAll (values.map rowOf) store.compatibilities } := by
  induction values generalizing store with
  | nil => rfl
  | cons value rest ih => exact ih (store.addCompatibility (rowOf value))

theorem foldl_addResource (models : List String) (store : Store) (resource : String) :
    models.foldl (fun store model => store.addResource resource model) store =
      { store with
        resources := insertAll (models.map fun model => { resource, model }) store.resources } := by
  induction models generalizing store with
  | nil => rfl
  | cons model rest ih => exact ih (store.addResource resource model)

theorem loadFramework_eq (store : Store) (entry : CatalogueFramework) :
    store.loadFramework entry =
      { store with
        frameworks := (store.upsertFramework entry.framework).frameworks
        compatibilities := insertAll entry.rows store.compatibilities } := by
  have named : store.upsertFramework entry.framework =
      { store with frameworks := (store.upsertFramework entry.framework).frameworks } := by
    unfold upsertFramework
    split <;> rfl
  unfold loadFramework addArchitecture addModel
  dsimp only
  rw [foldl_addCompatibility, foldl_addCompatibility, named, ← insertAll_append]
  rfl

/-- What becomes of the tables while frameworks are loaded. -/
structure Equips (entries : List CatalogueFramework) (store after : Store) : Prop where
  frameworks : Register.frameworks.WritesAll entries store.frameworks after.frameworks
  compatibilities : after.compatibilities =
    insertAll (entries.flatMap CatalogueFramework.rows) store.compatibilities
  others : after =
    { store with frameworks := after.frameworks, compatibilities := after.compatibilities }

theorem equips_foldl (entries : List CatalogueFramework) (store : Store) :
    Equips entries store (entries.foldl loadFramework store) := by
  induction entries generalizing store with
  | nil => exact ⟨.nil, rfl, rfl⟩
  | cons entry rest ih =>
    obtain ⟨frameworks, compatibilities, others⟩ := ih (store.loadFramework entry)
    rw [loadFramework_eq] at frameworks compatibilities others
    rw [List.foldl_cons, loadFramework_eq]
    refine ⟨.cons (writes_upsertFramework entry) frameworks, ?_, others⟩
    rw [compatibilities, List.flatMap_cons, insertAll_append]

theorem foldl_retire (ids : List Int) (store : Store) :
    ids.foldl retire store =
      { store with
        frameworks := store.frameworks.filter fun framework => framework.id ∉ ids
        compatibilities := store.compatibilities.filter fun row => row.frameworkId ∉ ids } := by
  induction ids generalizing store with
  | nil => simp
  | cons id rest ih =>
    rw [List.foldl_cons, ih]
    simp [retire, removeFramework, List.filter_filter, Bool.and_comm]

theorem foldl_loadResource (entries : List CatalogueResource) (store : Store) :
    entries.foldl loadResource store =
      { store with
        resources := insertAll (entries.flatMap CatalogueResource.rows) store.resources } := by
  induction entries generalizing store with
  | nil => rfl
  | cons entry rest ih =>
    have first : store.loadResource entry =
        { store with resources := insertAll entry.rows store.resources } :=
      foldl_addResource entry.models store entry.name
    rw [List.foldl_cons, ih, first, List.flatMap_cons, insertAll_append]

def Legible (table : List RepositoryRow) (entry : CatalogueRepository) : Prop :=
  ∃ row time, Register.repositories.row? (Register.repositories.key entry) table = some row ∧
    readTime? row.updatedAt = .ok time

def marking? (table : List RepositoryRow) (entry : CatalogueRepository) : Option (Int × String) := do
  let source ← entry.mirrorOf
  let row ← Register.repositories.row? (Register.repositories.key entry) table
  some (row.id, source)

/-- Neither the number nor the time of a repository is in a catalogue. -/
theorem amendAll_repositories (entries : List CatalogueRepository) (row : RepositoryRow) :
    (Register.repositories.amendAll entries row).id = row.id ∧
      (Register.repositories.amendAll entries row).updatedAt = row.updatedAt := by
  induction entries generalizing row with
  | nil => exact ⟨rfl, rfl⟩
  | cons entry rest ih =>
    have first : (Register.repositories.amend entry row).id = row.id ∧
        (Register.repositories.amend entry row).updatedAt = row.updatedAt := by
      unfold Register.amend
      split <;> exact ⟨rfl, rfl⟩
    obtain ⟨id, updatedAt⟩ := ih (Register.repositories.amend entry row)
    exact ⟨id.trans first.1, updatedAt.trans first.2⟩

section Writing

variable {entries : List CatalogueRepository} {entry : CatalogueRepository}
  {table written : List RepositoryRow}

theorem Legible.persists (legible : Legible table entry)
    (writes : Register.repositories.WritesAll entries table written) : Legible written entry := by
  obtain ⟨row, time, found, read⟩ := legible
  exact ⟨_, time, writes.row? found, (amendAll_repositories entries row).2 ▸ read⟩

theorem Legible.marking?_eq (legible : Legible table entry)
    (writes : Register.repositories.WritesAll entries table written) :
    marking? written entry = marking? table entry := by
  obtain ⟨row, -, found, -⟩ := legible
  unfold marking?
  rw [writes.row? found, found]
  cases entry.mirrorOf with
  | none => rfl
  | some source => simp [(amendAll_repositories entries row).1]

end Writing

theorem findRepository_eq_ok {repoType : RepoType} {owner name : String} {repository : Repository}
    (found : store.findRepository repoType owner name = .ok (some repository)) :
    ∃ row time, store.repositoryRow? repoType owner name = some row ∧ row.id = repository.id ∧
      readTime? row.updatedAt = .ok time := by
  unfold findRepository at found
  split at found
  · cases found
  · next row isFirst =>
    obtain ⟨read, wasRead, same⟩ := map_eq_ok found
    obtain rfl := Option.some.inj same
    obtain ⟨time, readable, rfl⟩ := map_eq_ok wasRead
    exact ⟨row, time, isFirst, rfl, readable⟩

/-- What becomes of the tables while repositories are loaded and none of them is unreadable. -/
structure Registers (entries : List CatalogueRepository) (store after : Store) : Prop where
  repositories : Register.repositories.WritesAll entries store.repositories after.repositories
  mirrors : Register.mirrors.WritesAll (entries.filterMap (marking? after.repositories))
    store.mirrors after.mirrors
  legible : ∀ entry ∈ entries, Legible after.repositories entry
  frameworks : after.frameworks = store.frameworks
  compatibilities : after.compatibilities = store.compatibilities
  resources : after.resources = store.resources

theorem upsertRepository_others (store : Store) (repoType : RepoType)
    (owner name defaultBranch : String) :
    store.upsertRepository repoType owner name defaultBranch =
      { store with
        repositories := (store.upsertRepository repoType owner name defaultBranch).repositories
        lastRepositoryId := store.lastRepositoryId + 1 } := by
  unfold upsertRepository
  dsimp only
  split <;> rfl

theorem markMirror_others (store : Store) (repositoryId : Int) (source : String) :
    store.markMirror repositoryId source =
      { store with mirrors := (store.markMirror repositoryId source).mirrors } := by
  unfold markMirror
  split <;> rfl

theorem putRepository_eq_ok {entry : CatalogueRepository} {repository : Repository}
    (put : store.putRepository entry.repoType entry.owner entry.name entry.defaultBranch =
      (.ok repository, after)) :
    Register.repositories.Writes entry store.repositories after.repositories ∧
      (∃ row time, Register.repositories.row? (Register.repositories.key entry) after.repositories =
        some row ∧ row.id = repository.id ∧ readTime? row.updatedAt = .ok time) ∧
      after = { store with
        repositories := after.repositories, lastRepositoryId := store.lastRepositoryId + 1 } := by
  unfold putRepository at put
  dsimp only at put
  split at put
  · next found =>
    cases put
    obtain ⟨row, time, isFirst, same, read⟩ := findRepository_eq_ok found
    rw [repositoryRow?_eq] at isFirst
    exact ⟨writes_upsertRepository entry, ⟨row, time, isFirst, same, read⟩,
      upsertRepository_others store _ _ _ _⟩
  · cases put
  · cases put

theorem registers_loadRepository {entry : CatalogueRepository}
    (loaded : store.loadRepository entry = (.ok (), after)) : Registers [entry] store after := by
  unfold loadRepository at loaded
  split at loaded
  · cases loaded
  · next repository middle put =>
    obtain ⟨writes, ⟨row, time, isFirst, same, read⟩, others⟩ := putRepository_eq_ok put
    have legible : ∀ other ∈ [entry], Legible middle.repositories other :=
      List.forall_mem_singleton.mpr ⟨row, time, isFirst, read⟩
    split at loaded
    · next noMirror =>
      obtain rfl : middle = after := congrArg Prod.snd loaded
      have marking : marking? middle.repositories entry = none := by simp [marking?, noMirror]
      refine ⟨.cons writes .nil, ?_, legible, ?_, ?_, ?_⟩
      · rw [List.filterMap_cons_none marking, others]
        exact .nil
      all_goals rw [others]
    · next source isMirror =>
      obtain rfl : middle.markMirror repository.id source = after := congrArg Prod.snd loaded
      have marks : Register.mirrors.Writes (repository.id, source) middle.mirrors
        (middle.markMirror repository.id source).mirrors := writes_markMirror _ _
      have marking : marking? middle.repositories entry = some (repository.id, source) := by
        simp [marking?, isMirror, isFirst, same]
      have sameMirrors : middle.mirrors = store.mirrors := by rw [others]
      rw [markMirror_others]
      refine ⟨.cons writes .nil, ?_, legible, ?_, ?_, ?_⟩
      · rw [List.filterMap_cons_some marking, ← sameMirrors]
        exact .cons marks .nil
      all_goals rw [others]

theorem Registers.cons {entry : CatalogueRepository} {rest : List CatalogueRepository}
    (first : Registers [entry] store middle) (later : Registers rest middle after) :
    Registers (entry :: rest) store after := by
  have legible : Legible middle.repositories entry := first.legible entry (List.mem_singleton_self _)
  have marking : ([entry].filterMap (marking? middle.repositories)) =
      [entry].filterMap (marking? after.repositories) := by
    simp only [List.filterMap_cons, List.filterMap_nil, legible.marking?_eq later.repositories]
  refine ⟨first.repositories.append later.repositories, ?_, ?_,
    later.frameworks.trans first.frameworks, later.compatibilities.trans first.compatibilities,
    later.resources.trans first.resources⟩
  · have mirrors := first.mirrors.append later.mirrors
    rwa [marking, ← List.filterMap_append] at mirrors
  · exact List.forall_mem_cons.mpr ⟨legible.persists later.repositories, later.legible⟩

theorem registers_loadRepositories {entries : List CatalogueRepository}
    (loaded : loadRepositories entries store = (.ok (), after)) : Registers entries store after := by
  induction entries generalizing store with
  | nil =>
    obtain rfl : store = after := congrArg Prod.snd loaded
    exact ⟨.nil, .nil, nofun, rfl, rfl, rfl⟩
  | cons entry rest ih =>
    unfold loadRepositories at loaded
    split at loaded
    · cases loaded
    · next middle first => exact (registers_loadRepository first).cons (ih loaded)

theorem loadRepository_ok {entry : CatalogueRepository} (legible : Legible store.repositories entry) :
    ∃ after, store.loadRepository entry = (.ok (), after) := by
  obtain ⟨row, time, isFirst, read⟩ :=
    legible.persists (.cons (writes_upsertRepository entry) .nil)
  have found : (store.upsertRepository entry.repoType entry.owner entry.name
      entry.defaultBranch).repositoryRow? entry.repoType entry.owner entry.name = some row :=
    (repositoryRow?_eq _ _ _).trans isFirst
  unfold loadRepository putRepository findRepository readRepository
  simp only [found, read, Except.map]
  cases entry.mirrorOf with
  | none => exact ⟨_, rfl⟩
  | some source => exact ⟨_, rfl⟩

theorem loadRepositories_ok {entries : List CatalogueRepository}
    (legible : ∀ entry ∈ entries, Legible store.repositories entry) :
    ∃ after, loadRepositories entries store = (.ok (), after) := by
  induction entries generalizing store with
  | nil => exact ⟨store, rfl⟩
  | cons entry rest ih =>
    obtain ⟨head, tail⟩ := List.forall_mem_cons.mp legible
    obtain ⟨middle, first⟩ := loadRepository_ok head
    have writes := (registers_loadRepository first).repositories
    unfold loadRepositories
    rw [first]
    exact ih fun other member => (tail other member).persists writes

structure Loads (catalogue : Catalogue) (store once : Store) : Prop where
  repositories : Register.repositories.WritesAll catalogue.repositories store.repositories
    once.repositories
  mirrors : Register.mirrors.WritesAll
    (catalogue.repositories.filterMap (marking? once.repositories)) store.mirrors once.mirrors
  legible : ∀ entry ∈ catalogue.repositories, Legible once.repositories entry
  frameworks : ∃ listed,
    Register.frameworks.WritesAll catalogue.frameworks store.frameworks listed ∧
      once.frameworks = listed.filter fun framework => framework.id ∉ catalogue.retired
  compatibilities : once.compatibilities =
    (insertAll (catalogue.frameworks.flatMap CatalogueFramework.rows) store.compatibilities).filter
      fun row => row.frameworkId ∉ catalogue.retired
  resources : once.resources =
    insertAll (catalogue.resources.flatMap CatalogueResource.rows) store.resources

variable {catalogue : Catalogue} {once twice : Store}

theorem loads_of_load (loaded : store.load catalogue = (.ok (), once)) :
    Loads catalogue store once := by
  unfold load at loaded
  split at loaded
  · cases loaded
  · next middle first =>
    have registered := registers_loadRepositories first
    have equipped := equips_foldl catalogue.frameworks middle
    obtain rfl := congrArg Prod.snd loaded
    dsimp only
    rw [foldl_loadResource, foldl_retire, equipped.others]
    exact
      { repositories := registered.repositories
        mirrors := registered.mirrors
        legible := registered.legible
        frameworks := ⟨_, registered.frameworks ▸ equipped.frameworks, rfl⟩
        compatibilities := by rw [← registered.compatibilities, ← equipped.compatibilities]
        resources := by rw [← registered.resources] }

theorem load_ok (legible : ∀ entry ∈ catalogue.repositories, Legible store.repositories entry) :
    ∃ after, store.load catalogue = (.ok (), after) := by
  obtain ⟨middle, first⟩ := loadRepositories_ok legible
  unfold load
  rw [first]
  exact ⟨_, rfl⟩

namespace Loads

theorem repositories_again (first : Loads catalogue store once) (second : Loads catalogue once twice) :
    twice.repositories = once.repositories := first.repositories.again second.repositories

theorem mirrors_again (first : Loads catalogue store once) (second : Loads catalogue once twice) :
    twice.mirrors = once.mirrors := by
  have mirrors := second.mirrors
  rw [first.repositories_again second] at mirrors
  exact first.mirrors.again mirrors

theorem frameworks_again (first : Loads catalogue store once) (second : Loads catalogue once twice) :
    twice.frameworks = once.frameworks := by
  obtain ⟨listed, writes, isOnce⟩ := first.frameworks
  obtain ⟨listedAgain, writesAgain, isTwice⟩ := second.frameworks
  rw [isOnce] at writesAgain
  rw [isOnce, isTwice]
  exact writes.again_filter (fun id => id ∉ catalogue.retired) writesAgain

theorem compatibilities_again (first : Loads catalogue store once)
    (second : Loads catalogue once twice) : twice.compatibilities = once.compatibilities := by
  have writes := Register.writesAll_insertNew
    (catalogue.frameworks.flatMap CatalogueFramework.rows) store.compatibilities
  have writesAgain := Register.writesAll_insertNew
    (catalogue.frameworks.flatMap CatalogueFramework.rows) once.compatibilities
  rw [second.compatibilities, first.compatibilities]
  rw [first.compatibilities] at writesAgain
  exact writes.again_filter (fun row => row.frameworkId ∉ catalogue.retired) writesAgain

theorem resources_again (first : Loads catalogue store once) (second : Loads catalogue once twice) :
    twice.resources = once.resources := by
  have writes := Register.writesAll_insertNew
    (catalogue.resources.flatMap CatalogueResource.rows) store.resources
  have writesAgain := Register.writesAll_insertNew
    (catalogue.resources.flatMap CatalogueResource.rows) once.resources
  rw [second.resources]
  rw [first.resources] at writesAgain ⊢
  exact writes.again writesAgain

theorem framework?_retired (loads : Loads catalogue store once) {id : Int}
    (retired : id ∈ catalogue.retired) : once.framework? id = none := by
  obtain ⟨listed, -, isOnce⟩ := loads.frameworks
  refine Register.frameworks.row?_eq_none.mpr ?_
  rintro framework member rfl
  rw [isOnce] at member
  exact of_decide_eq_true (List.mem_filter.mp member).2 retired

theorem framework?_last (loads : Loads catalogue store once) {earlier later : List CatalogueFramework}
    {entry : CatalogueFramework} (split : catalogue.frameworks = earlier ++ entry :: later)
    (last : ∀ other ∈ later, other.framework.id ≠ entry.framework.id)
    (current : entry.framework.id ∉ catalogue.retired) :
    once.framework? entry.framework.id = some entry.framework := by
  obtain ⟨listed, writes, isOnce⟩ := loads.frameworks
  rw [split] at writes
  have named := writes.hasKeys entry (by simp)
  obtain ⟨row, member, same⟩ := List.mem_map.mp named
  have kept : row ∈ once.frameworks := by
    rw [isOnce]
    refine List.mem_filter.mpr ⟨member, decide_eq_true ?_⟩
    change row.id = entry.framework.id at same
    rwa [same]
  cases found : once.framework? entry.framework.id with
  | none => exact absurd same (Register.frameworks.row?_eq_none.mp found row kept)
  | some framework =>
    obtain ⟨present, isIt⟩ := Register.frameworks.of_row?_eq_some found
    rw [isOnce] at present
    exact congrArg some (writes.eq_edit (List.mem_of_mem_filter present) isIt last).symm

end Loads

namespace KeepsDerived

theorem rfl : store.KeepsDerived store := ⟨Eq.refl _, Eq.refl _, Eq.refl _, .rfl, .rfl⟩

theorem trans (first : store.KeepsDerived middle) (second : middle.KeepsDerived after) :
    store.KeepsDerived after where
  tags := second.tags.trans first.tags
  links := second.links.trans first.links
  associations := second.associations.trans first.associations
  repositories := first.repositories.trans second.repositories
  mirrors := first.mirrors.trans second.mirrors

end KeepsDerived

theorem unstamped_upsertRepository (repoType : RepoType) (owner name defaultBranch : String) :
    Unstamped (store.repositories.map RepositoryRow.stamp)
      ((store.upsertRepository repoType owner name defaultBranch).repositories.map
        RepositoryRow.stamp) := by
  unfold upsertRepository
  dsimp only
  split
  · exact .of_eq (map_edit RepositoryRow.stamp _ _ fun row => by split <;> rfl)
  · exact ⟨[store.lastRepositoryId + 1], List.map_append⟩

theorem unstamped_markMirror (repositoryId : Int) (source : String) :
    Unstamped (store.mirrors.map MirrorRow.stamp)
      ((store.markMirror repositoryId source).mirrors.map MirrorRow.stamp) := by
  unfold markMirror
  split
  · exact .of_eq (map_edit MirrorRow.stamp _ _ fun row => by split <;> rfl)
  · exact ⟨[repositoryId], List.map_append⟩

theorem Entry.keepsDerived (entry : Entry store after) : store.KeepsDerived after := by
  obtain ⟨-, tags, links, associations⟩ := entry.leaves
  suffices times : Unstamped (store.repositories.map RepositoryRow.stamp)
        (after.repositories.map RepositoryRow.stamp) ∧
      Unstamped (store.mirrors.map MirrorRow.stamp) (after.mirrors.map MirrorRow.stamp) from
    ⟨tags, links, associations, times.1, times.2⟩
  cases entry with
  | upsertRepository repoType owner name defaultBranch =>
    refine ⟨unstamped_upsertRepository _ _ _ _, ?_⟩
    rw [upsertRepository_others]
    exact .rfl
  | markMirror repositoryId source =>
    refine ⟨?_, unstamped_markMirror _ _⟩
    rw [markMirror_others]
    exact .rfl
  | upsertFramework framework =>
    unfold Store.upsertFramework
    split <;> exact ⟨.rfl, .rfl⟩
  | removeFramework | addCompatibility | addResource => exact ⟨.rfl, .rfl⟩

theorem Entries.keepsDerived (entries : Entries store after) : store.KeepsDerived after := by
  induction entries with
  | refl => exact .rfl
  | tail _ entry ih => exact ih.trans entry.keepsDerived

/-- Loading a catalogue leaves alone what is derived about repositories, even where it fails half-way.
One that was loaded can be loaded again, which leaves the same repositories, mirrors and frameworks and
gives the same answers about what runs where. Retired frameworks are gone with what they run, also those
that the same catalogue lists, and any other framework is as its last entry says. -/
theorem loading_again_changes_nothing (store : Store) (catalogue : Catalogue) :
    store.KeepsDerived (store.load catalogue).2 ∧
    ∀ once, store.load catalogue = (.ok (), once) →
      (∃ twice, once.load catalogue = (.ok (), twice) ∧
        twice.repositories = once.repositories ∧ twice.mirrors = once.mirrors ∧
        twice.frameworks = once.frameworks ∧
        (∀ architecture model,
          twice.candidates architecture model = once.candidates architecture model) ∧
        ∀ model, twice.resourceNames model = once.resourceNames model) ∧
      (∀ id ∈ catalogue.retired, once.framework? id = none ∧ ∀ architecture model,
        ∀ candidate ∈ once.candidates architecture model, candidate.frameworkId ≠ id) ∧
      ∀ earlier entry later, catalogue.frameworks = earlier ++ entry :: later →
        (∀ other ∈ later, other.framework.id ≠ entry.framework.id) →
        entry.framework.id ∉ catalogue.retired →
        once.framework? entry.framework.id = some entry.framework := by
  refine ⟨(entries_load catalogue).keepsDerived, fun once loaded => ?_⟩
  have first := loads_of_load loaded
  refine ⟨?_, ?_, fun _ _ _ split last current => first.framework?_last split last current⟩
  · obtain ⟨twice, loadedAgain⟩ := load_ok first.legible
    have second := loads_of_load loadedAgain
    have same : once.SameCatalogue twice :=
      ⟨first.frameworks_again second, first.compatibilities_again second⟩
    refine ⟨twice, loadedAgain, first.repositories_again second, first.mirrors_again second,
      same.frameworks, fun _ _ => same.candidates, fun model => ?_⟩
    rw [resourceNames, resourceNames, first.resources_again second]
  · intro id retired
    have gone := first.framework?_retired retired
    refine ⟨gone, ?_⟩
    rintro architecture model candidate member rfl
    obtain ⟨framework, ⟨listed, -⟩, rfl⟩ := mem_candidates_iff.mp member
    exact Register.frameworks.row?_eq_none.mp gone framework listed rfl

/-- Names a repository and a framework twice each, and retires a framework that it lists. -/
def repetitiveCatalogue : Catalogue where
  repositories :=
    [⟨.model, "acme", "bert", "main", some "https://one.example/bert"⟩,
      ⟨.dataset, "acme", "squad", "main", none⟩,
      ⟨.model, "acme", "bert", "dev", some "https://two.example/bert"⟩]
  frameworks :=
    [⟨⟨7, "vLLM", "vllm", 1⟩, ["BertModel", "BertModel"], []⟩,
      ⟨⟨8, "TGI", "tgi", 1⟩, ["BertModel"], []⟩,
      ⟨⟨7, "vLLM", "vllm-2", 2⟩, ["bertmodel"], ["bert"]⟩]
  resources := [⟨"a100", ["bert", "bert"]⟩]
  retired := [8, 9]

def datedStore : Store where
  repositories := [⟨3, .model, "acme", "bert", "old", some "2024-05-01T12:00:00Z"⟩]
  mirrors := [⟨3, "https://old.example/bert", some "2024-05-01T12:00:00Z"⟩]
  tags := [⟨1, "model", "runtime_framework", "", "tgi"⟩]
  links := [⟨3, 1⟩]
  frameworks := [⟨8, "TGI", "tgi", 2⟩]
  compatibilities := [⟨8, "LlamaModel", ""⟩]
  associations := [⟨3, 8, 2⟩]
  lastRepositoryId := 3
  lastTagId := 1

def relisted : Store := (datedStore.load repetitiveCatalogue).2

theorem relisted_stays :
    datedStore.load repetitiveCatalogue = (.ok (), relisted) ∧
    relisted.mirrors = [⟨3, "https://two.example/bert", some "2024-05-01T12:00:00Z"⟩] ∧
    datedStore.KeepsDerived relisted ∧
    (∃ twice, relisted.load repetitiveCatalogue = (.ok (), twice) ∧
      twice.repositories = relisted.repositories ∧ twice.mirrors = relisted.mirrors ∧
      twice.frameworks = relisted.frameworks) ∧
    relisted.framework? 8 = none ∧ relisted.framework? 7 = some ⟨7, "vLLM", "vllm-2", 2⟩ := by
  have loaded : datedStore.load repetitiveCatalogue = (.ok (), relisted) := by decide
  obtain ⟨kept, settled⟩ := loading_again_changes_nothing datedStore repetitiveCatalogue
  obtain ⟨⟨twice, again, repositories, mirrors, frameworks, -⟩, retired, last⟩ :=
    settled relisted loaded
  refine ⟨loaded, by decide, kept, ⟨twice, again, repositories, mirrors, frameworks⟩,
    (retired 8 (by decide)).1, ?_⟩
  exact last (repetitiveCatalogue.frameworks.take 2) ⟨⟨7, "vLLM", "vllm-2", 2⟩, _, _⟩ [] rfl nofun
    (by decide)

end Store

end ModelHub
