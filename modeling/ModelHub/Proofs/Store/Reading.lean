import ModelHub.Proofs.Store.Revision

namespace ModelHub

theorem map_eq_ok {ε α β : Type} {f : α → β} {outcome : Except ε α} {result : β}
    (mapped : outcome.map f = .ok result) : ∃ value, outcome = .ok value ∧ f value = result := by
  cases outcome with
  | ok value => exact ⟨value, rfl, Except.ok.inj mapped⟩
  | error e => cases mapped

theorem map_eq_error {ε α β : Type} {f : α → β} {outcome : Except ε α} {e : ε}
    (mapped : outcome.map f = .error e) : outcome = .error e := by
  cases outcome with
  | ok value => cases mapped
  | error other => exact congrArg Except.error (Except.error.inj mapped)

theorem mapM_ok {ε α β : Type} {f : α → Except ε β} {inputs : List α} {results : List β}
    (mapped : inputs.mapM f = .ok results) :
    (∀ result ∈ results, ∃ input ∈ inputs, f input = .ok result) ∧
      ∀ input ∈ inputs, ∃ result ∈ results, f input = .ok result := by
  induction inputs generalizing results with
  | nil =>
    obtain rfl := Except.ok.inj mapped
    simp
  | cons input rest ih =>
    rw [List.mapM_cons] at mapped
    cases first : f input with
    | error e =>
      rw [first] at mapped
      cases mapped
    | ok result =>
      rw [first] at mapped
      cases later : rest.mapM f with
      | error e =>
        simp only [later] at mapped
        cases mapped
      | ok others =>
        simp only [later] at mapped
        obtain rfl := Except.ok.inj mapped
        obtain ⟨origin, image⟩ := ih later
        refine ⟨List.forall_mem_cons.mpr ⟨⟨input, List.mem_cons_self, first⟩, ?_⟩,
          List.forall_mem_cons.mpr ⟨⟨result, List.mem_cons_self, first⟩, ?_⟩⟩
        · intro other member
          obtain ⟨found, foundMember, read⟩ := origin other member
          exact ⟨found, List.mem_cons_of_mem input foundMember, read⟩
        · intro other member
          obtain ⟨found, foundMember, read⟩ := image other member
          exact ⟨found, List.mem_cons_of_mem result foundMember, read⟩

theorem mapM_error {ε α β : Type} {f : α → Except ε β} {inputs : List α} {e : ε}
    (mapped : inputs.mapM f = .error e) : ∃ input ∈ inputs, f input = .error e := by
  induction inputs with
  | nil => cases mapped
  | cons input rest ih =>
    rw [List.mapM_cons] at mapped
    cases first : f input with
    | error other =>
      rw [first] at mapped
      obtain rfl := Except.error.inj mapped
      exact ⟨input, List.mem_cons_self, first⟩
    | ok result =>
      rw [first] at mapped
      cases later : rest.mapM f with
      | error other =>
        simp only [later] at mapped
        obtain rfl := Except.error.inj mapped
        obtain ⟨found, member, failed⟩ := ih later
        exact ⟨found, List.mem_cons_of_mem _ member, failed⟩
      | ok others =>
        simp only [later] at mapped
        cases mapped

theorem map_of_mapM_ok {ε α β γ : Type} {f : α → Except ε β} {g : β → γ} {h : α → γ}
    (seen : ∀ input result, f input = .ok result → g result = h input) {inputs : List α}
    {results : List β} (mapped : inputs.mapM f = .ok results) : results.map g = inputs.map h := by
  induction inputs generalizing results with
  | nil =>
    obtain rfl := Except.ok.inj mapped
    rfl
  | cons input rest ih =>
    rw [List.mapM_cons] at mapped
    cases first : f input with
    | error e =>
      rw [first] at mapped
      cases mapped
    | ok result =>
      rw [first] at mapped
      cases later : rest.mapM f with
      | error e =>
        simp only [later] at mapped
        cases mapped
      | ok others =>
        simp only [later] at mapped
        obtain rfl := Except.ok.inj mapped
        rw [List.map_cons, List.map_cons, seen input result first, ih later]

theorem TagScope.name_of_ofName? {text : String} {scope : TagScope}
    (read : TagScope.ofName? text = some scope) : scope.name = text := by
  unfold TagScope.ofName? RepoType.ofName? at read
  split at read <;> simp [TagScope.ofRepoType?] at read <;> subst read <;> rfl

theorem TagCategory.name_of_ofName? {text : String} {category : TagCategory}
    (read : TagCategory.ofName? text = some category) : category.name = text := by
  unfold TagCategory.ofName? at read
  split at read <;> simp at read <;> subst read <;> rfl

theorem TagRow.read_ok {row : TagRow} {tag : Tag} (read : row.read = .ok tag) :
    tag.id = row.id ∧ tag.key = row.key ∧ tag.category.name = row.category := by
  unfold TagRow.read at read
  split at read
  · cases read
  · next scope scopeRead =>
    split at read
    · cases read
    · next category categoryRead =>
      obtain rfl := Except.ok.inj read
      refine ⟨rfl, ?_, TagCategory.name_of_ofName? categoryRead⟩
      simp only [Tag.key, TagKey.of, TagRow.key, TagScope.name_of_ofName? scopeRead,
        TagCategory.name_of_ofName? categoryRead]

theorem TagRow.read_error {row : TagRow} {e : HubError} (read : row.read = .error e) :
    ∃ message, e = .database message := by
  unfold TagRow.read at read
  split at read
  · exact ⟨_, (Except.error.inj read).symm⟩
  · split at read
    · exact ⟨_, (Except.error.inj read).symm⟩
    · cases read

theorem readTime?_error {text : Option String} {e : HubError} (read : readTime? text = .error e) :
    ∃ message, e = .database message := by
  cases text with
  | none => cases read
  | some text =>
    have failed : readTime text = .error e := map_eq_error read
    unfold readTime at failed
    split at failed
    · cases failed
    · exact ⟨_, (Except.error.inj failed).symm⟩

def Repository.place (repository : Repository) : RepositoryPlace :=
  { id := repository.id, repoType := repository.repoType, owner := repository.owner
    name := repository.name, defaultBranch := repository.defaultBranch }

namespace Store

variable {store : Store}

def place? (store : Store) (repoType : RepoType) (owner name : String) : Option RepositoryPlace :=
  (store.repositoryRow? repoType owner name).map RepositoryRow.place

theorem place?_congr {other : Store}
    (places : other.repositories.map RepositoryRow.place =
      store.repositories.map RepositoryRow.place)
    (repoType : RepoType) (owner name : String) :
    other.place? repoType owner name = store.place? repoType owner name := by
  have seen : ∀ s : Store, s.place? repoType owner name =
      (s.repositories.map RepositoryRow.place).find? fun place =>
        place.repoType = repoType && place.owner = owner && place.name = name := by
    intro s
    rw [List.find?_map]
    rfl
  rw [seen, seen, places]

theorem place?_eq_some {repoType : RepoType} {owner name : String} {place : RepositoryPlace}
    (found : store.place? repoType owner name = some place) :
    place.repoType = repoType ∧ place.owner = owner ∧ place.name = name := by
  obtain ⟨row, isFirst, rfl⟩ := Option.map_eq_some_iff.mp found
  have address := RepositoryRow.isAt_iff.mp (List.find?_some isFirst)
  simp only [RepositoryRow.address, Prod.mk.injEq] at address
  exact address

theorem findRepository_some {repoType : RepoType} {owner name : String} {repository : Repository}
    (found : store.findRepository repoType owner name = .ok (some repository)) :
    store.place? repoType owner name = some repository.place := by
  unfold findRepository at found
  split at found
  · cases found
  · next row isFirst =>
    obtain ⟨read, wasRead, same⟩ := map_eq_ok found
    obtain rfl := Option.some.inj same
    obtain ⟨time, -, rfl⟩ := map_eq_ok wasRead
    simp only [place?, isFirst, Option.map_some]
    rfl

theorem findRepository_none {repoType : RepoType} {owner name : String}
    (absent : store.findRepository repoType owner name = .ok none) :
    store.place? repoType owner name = none := by
  unfold findRepository at absent
  split at absent
  · next isAbsent => simp only [place?, isAbsent, Option.map_none]
  · obtain ⟨read, -, impossible⟩ := map_eq_ok absent
    cases impossible

theorem findRepository_isMirror {repoType : RepoType} {owner name : String} {repository : Repository}
    (found : store.findRepository repoType owner name = .ok (some repository)) :
    repository.isMirror = (store.mirror? repository.id).isSome := by
  unfold findRepository at found
  split at found
  · cases found
  · obtain ⟨read, wasRead, same⟩ := map_eq_ok found
    obtain rfl := Option.some.inj same
    obtain ⟨time, -, rfl⟩ := map_eq_ok wasRead
    rfl

theorem isSome_mirror?_congr {other : Store}
    (origins : other.mirrors.map MirrorRow.origin = store.mirrors.map MirrorRow.origin)
    (repositoryId : Int) :
    (other.mirror? repositoryId).isSome = (store.mirror? repositoryId).isSome := by
  have seen : ∀ s : Store, (s.mirror? repositoryId).isSome =
      (s.mirrors.map MirrorRow.origin).any fun origin => origin.1 = repositoryId := by
    intro s
    rw [List.any_map, mirror?, List.isSome_find?]
    rfl
  rw [seen, seen, origins]

theorem findRepository_error {repoType : RepoType} {owner name : String} {e : HubError}
    (failed : store.findRepository repoType owner name = .error e) :
    ∃ message, e = .database message := by
  unfold findRepository at failed
  split at failed
  · cases failed
  · exact readTime?_error (map_eq_error (map_eq_error failed))

theorem mem_tagRowsOf {repositoryId : Int} {category : Option TagCategory} {row : TagRow} :
    row ∈ store.tagRowsOf repositoryId category ↔
      row ∈ store.tags ∧ ({ repositoryId, tagId := row.id } : TagLink) ∈ store.links ∧
        ∀ c, category = some c → row.category = c.name := by
  simp only [tagRowsOf, List.mem_mergeSort, List.mem_filter, isLinked, Bool.and_eq_true,
    decide_eq_true_eq, Option.all_eq_true]

theorem tagsOf_ok {repositoryId : Int} {category : TagCategory} {tags : List Tag}
    (listed : store.tagsOf repositoryId (some category) = .ok tags) :
    (∀ tag ∈ tags, tag.category = category) ∧
      ∀ key, (∃ tag ∈ tags, tag.key = key) ↔
        key ∈ (store.profile repositoryId).tags ∧ key.category = category.name := by
  obtain ⟨origin, image⟩ := mapM_ok listed
  refine ⟨?_, fun key => ⟨?_, ?_⟩⟩
  · intro tag member
    obtain ⟨row, rowMember, read⟩ := origin tag member
    obtain ⟨-, -, isOf⟩ := TagRow.read_ok read
    exact TagCategory.name_injective (isOf.trans ((mem_tagRowsOf.mp rowMember).2.2 category rfl))
  · rintro ⟨tag, member, rfl⟩
    obtain ⟨row, rowMember, read⟩ := origin tag member
    obtain ⟨-, same, -⟩ := TagRow.read_ok read
    obtain ⟨present, linked, isOf⟩ := mem_tagRowsOf.mp rowMember
    exact ⟨⟨row, present, same.symm, linked⟩, same ▸ isOf category rfl⟩
  · rintro ⟨⟨row, present, rfl, linked⟩, isOf⟩
    have member : row ∈ store.tagRowsOf repositoryId (some category) := by
      refine mem_tagRowsOf.mpr ⟨present, linked, ?_⟩
      rintro c same
      obtain rfl := Option.some.inj same
      exact isOf
    obtain ⟨tag, tagMember, read⟩ := image row member
    exact ⟨tag, tagMember, (TagRow.read_ok read).2.1⟩

theorem tagsOf_nodup (lawful : store.Lawful) {repositoryId : Int} {category : Option TagCategory}
    {tags : List Tag} (listed : store.tagsOf repositoryId category = .ok tags) :
    (tags.map Tag.id).Nodup := by
  have same : tags.map Tag.id = (store.tagRowsOf repositoryId category).map TagRow.id :=
    map_of_mapM_ok (fun _ _ read => (TagRow.read_ok read).1) listed
  have rows : (store.tagRowsOf repositoryId category).Perm (store.tags.filter fun row =>
      store.isLinked repositoryId row.id && category.all fun c => row.category = c.name) :=
    List.mergeSort_perm _ _
  rw [same, (rows.map TagRow.id).nodup_iff]
  exact lawful.tagIds.sublist (List.filter_sublist.map TagRow.id)

theorem tagsOf_error {repositoryId : Int} {category : Option TagCategory} {e : HubError}
    (failed : store.tagsOf repositoryId category = .error e) :
    ∃ message, e = .database message := by
  obtain ⟨row, -, unread⟩ := mapM_error failed
  exact TagRow.read_error unread

/-- A call that fails has changed nothing. -/
theorem perform_error {after : Store} {request : StoreCall} {e : HubError}
    (failed : store.perform request = (.error e, after)) :
    after = store ∧ ∃ message, e = .database message := by
  cases request with
  | findRepository repoType owner name =>
    obtain ⟨unread, rfl⟩ := Prod.mk.inj failed
    exact ⟨rfl, findRepository_error unread⟩
  | listTags repositoryId category =>
    obtain ⟨unread, rfl⟩ := Prod.mk.inj failed
    exact ⟨rfl, tagsOf_error unread⟩
  | replaceTags repositoryId category tags =>
    simp only [perform] at failed
    split at failed
    · cases (Prod.mk.inj failed).1
    · next other refused =>
      obtain ⟨same, rfl⟩ := Prod.mk.inj failed
      obtain rfl := Except.error.inj same
      refine ⟨rfl, ?_⟩
      unfold replaceTags at refused
      split at refused
      · exact ⟨_, (Except.error.inj refused).symm⟩
      · cases refused
  | _ => cases (Prod.mk.inj failed).1

end Store

end ModelHub
