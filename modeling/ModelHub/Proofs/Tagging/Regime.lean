import ModelHub.Proofs.Engine.Keeps
import ModelHub.Proofs.Store.Regime
import ModelHub.Tagging.Service

namespace ModelHub

open Work (askStore keeps_askStore keeps_bind keeps_mk_bind keeps_of_leads keeps_pure
  leads_storeCall)

namespace MetaTags

theorem mem_insert {tag head : DeclaredTag} {tags : List DeclaredTag}
    (member : tag ∈ insert head tags) : tag = head ∨ tag ∈ tags := by
  induction tags with
  | nil => exact Or.inl (List.mem_singleton.mp member)
  | cons first rest ih =>
    unfold insert at member
    split at member
    · exact Or.inr member
    · split at member
      · exact List.mem_cons.mp member
      · rcases List.mem_cons.mp member with rfl | later
        · exact Or.inr List.mem_cons_self
        · exact (ih later).imp id (List.mem_cons_of_mem first)

theorem ne_of_scalarName {value : Yaml.Value} {name : String}
    (named : scalarName value = some name) : name ≠ "" := by
  simpa using (Option.filter_eq_some_iff.mp named).2

theorem ne_of_mem_namesOf {value : Yaml.Value} {name : String} (member : name ∈ namesOf value) :
    name ≠ "" := by
  unfold namesOf at member
  split at member
  · obtain ⟨item, -, named⟩ := List.mem_filterMap.mp member
    exact ne_of_scalarName named
  · exact ne_of_scalarName (Option.mem_toList.mp member)

theorem mem_ofGroup {entries : List (Yaml.Value × Yaml.Value)} {group : String} {tag : DeclaredTag}
    (member : tag ∈ ofGroup entries group) : tag.group = group ∧ tag.name ≠ "" := by
  unfold ofGroup at member
  split at member
  · cases member
  · obtain ⟨name, named, rfl⟩ := List.mem_map.mp member
    exact ⟨rfl, ne_of_mem_namesOf named⟩

theorem mem_ofMapping {entries : List (Yaml.Value × Yaml.Value)} {tag : DeclaredTag}
    (member : tag ∈ ofMapping entries) : tag.group ∈ groups ∧ tag.name ≠ "" := by
  have kept : ∀ tags : List DeclaredTag, tag ∈ tags.foldr insert [] → tag ∈ tags := by
    intro tags inserted
    induction tags with
    | nil => exact inserted
    | cons head rest ih =>
      rcases mem_insert inserted with rfl | later
      · exact List.mem_cons_self
      · exact List.mem_cons_of_mem head (ih later)
  obtain ⟨group, isGroup, inGroup⟩ := List.mem_flatMap.mp (kept _ member)
  obtain ⟨rfl, named⟩ := mem_ofGroup inGroup
  exact ⟨isGroup, named⟩

theorem admits_declared {content : String} {declared : List DeclaredTag}
    (read : MetaTags.declared content = .ok declared) (scope : TagScope) :
    ∀ tag ∈ declared, TagCategory.declared.Admits scope tag.group tag.name := by
  intro tag member
  have nothing : declared ≠ [] := List.ne_nil_of_mem member
  unfold MetaTags.declared at read
  split at read
  · exact absurd (Except.ok.inj read).symm nothing
  · split at read
    · exact absurd (Except.ok.inj read).symm nothing
    · split at read
      · cases read
      · obtain rfl := Except.ok.inj read
        exact mem_ofMapping member
      · exact absurd (Except.ok.inj read).symm nothing
      · cases read

end MetaTags

theorem Store.houses_of_place? {store : Store} {repoType : RepoType} {owner name : String}
    {place : RepositoryPlace} (found : store.place? repoType owner name = some place) :
    store.Houses place.id repoType := by
  have isOf := (place?_eq_some found).1
  obtain ⟨row, isFirst, rfl⟩ := Option.map_eq_some_iff.mp found
  exact ⟨row, List.mem_of_find?_eq_some isFirst, rfl, isOf⟩

namespace Regime

variable {regime : Regime} {vacant : Set (Int × Int)} {repositoryId : Int} {owner name : String}

theorem keeps_findRepository {repoType : RepoType} :
    Work.Keeps (regime.Holds vacant) (Tagging.findRepository repoType owner name) fun repository =>
      regime.start.place? repoType owner name = some repository.place := by
  refine keeps_of_leads fun store holds => Work.leads_bind.mpr (leads_storeCall ?_ fun _ => holds)
  intro found after performed
  obtain ⟨answer, rfl⟩ := Prod.mk.inj performed
  cases found with
  | none => exact holds
  | some repository =>
    refine ⟨holds, ?_⟩
    rw [← Store.place?_congr holds.places]
    exact Store.findRepository_some answer

theorem leads_ensureTag {scope : TagScope} {category : TagCategory} {group tag : String}
    (permitted : regime.permits category) (admitted : category.Admits scope group tag)
    {store : Store} (holds : regime.Holds vacant store) :
    Work.Leads Store.anyAnswers (askStore (.ensureTag scope category group tag)) store
      (fun ensured after => regime.Holds vacant after ∧ store.tags ⊆ after.tags ∧
        after.Lists ensured ∧ ensured.scope = scope ∧ ensured.category = category)
      fun _ after => regime.Holds vacant after := by
  have grown : store.tags ⊆ (store.ensureTag scope category group tag).2.tags := by
    rcases store.ensureTag_cases scope category group tag with same | ⟨row, new, -⟩
    · exact same ▸ List.Subset.refl _
    · exact new ▸ List.subset_append_left _ _
  refine leads_storeCall ?_ fun _ => holds
  intro ensured after performed
  obtain ⟨answer, rfl⟩ := Prod.mk.inj performed
  obtain rfl := Except.ok.inj answer
  exact ⟨holds.ensureTag permitted admitted, grown,
    (store.ensureTag_lists scope category group tag).1,
    store.ensureTag_parts scope category group tag⟩

theorem keeps_link {scope : TagScope} {category : TagCategory} {group tag : String}
    (permitted : regime.permits category) (admitted : category.Admits scope group tag)
    (housed : regime.start.Houses repositoryId scope.repoType) :
    Work.Keeps (regime.Holds vacant) (Tagging.link repositoryId scope category group tag)
      fun _ => True := by
  refine keeps_of_leads fun store holds => Work.leads_bind.mpr ?_
  refine (leads_ensureTag permitted admitted holds).mono ?_ fun _ _ => id
  rintro ensured middle ⟨middleHolds, -, listed, isIn, isOf⟩
  refine leads_storeCall ?_ fun _ => middleHolds
  intro isNew after linked
  obtain ⟨-, rfl⟩ := Prod.mk.inj linked
  exact ⟨middleHolds.link listed (by rwa [isOf]) (by rwa [isIn]), trivial⟩

theorem keeps_unlink {scope : TagScope} {category : TagCategory} {group tag : String}
    (permitted : regime.permits category) :
    Work.Keeps (regime.Holds vacant) (Tagging.unlink repositoryId scope category group tag)
      fun _ => True := by
  refine keeps_of_leads fun store holds => Work.leads_bind.mpr (leads_storeCall ?_ fun _ => holds)
  intro found middle performed
  obtain ⟨answer, rfl⟩ := Prod.mk.inj performed
  cases found with
  | none => exact ⟨holds, trivial⟩
  | some found =>
    have isFound := Except.ok.inj answer
    have listed := (Store.findTag?_eq_some isFound).1
    have isOf := (Store.findTag?_parts isFound).2
    refine leads_storeCall ?_ fun _ => holds
    intro present after unlinked
    obtain ⟨-, rfl⟩ := Prod.mk.inj unlinked
    exact ⟨holds.unlink listed (isOf ▸ permitted), trivial⟩

theorem leads_ensureDeclared {scope : TagScope} (permitted : regime.permits .declared)
    {declared : List DeclaredTag}
    (admitted : ∀ tag ∈ declared, TagCategory.declared.Admits scope tag.group tag.name)
    {store : Store} (holds : regime.Holds vacant store) :
    Work.Leads Store.anyAnswers (declared.mapM (Tagging.ensureDeclared scope)) store
      (fun tags after => regime.Holds vacant after ∧ store.tags ⊆ after.tags ∧
        ∀ tag ∈ tags, after.Lists tag ∧ tag.scope = scope)
      fun _ after => regime.Holds vacant after := by
  induction declared generalizing store with
  | nil => exact ⟨holds, List.Subset.refl _, fun _ member => absurd member List.not_mem_nil⟩
  | cons head rest ih =>
    obtain ⟨headAdmitted, restAdmitted⟩ := List.forall_mem_cons.mp admitted
    rw [List.mapM_cons]
    refine Work.leads_bind.mpr
      ((leads_ensureTag permitted headAdmitted holds).mono ?_ fun _ _ => id)
    rintro tag ensured ⟨ensuredHolds, added, listed, isIn, -⟩
    refine Work.leads_bind.mpr ((ih restAdmitted ensuredHolds).mono ?_ fun _ _ => id)
    rintro tags after ⟨afterHolds, grown, fit⟩
    exact ⟨afterHolds, List.Subset.trans added grown,
      List.forall_mem_cons.mpr ⟨⟨listed.mono grown, isIn⟩, fit⟩⟩

theorem keeps_applyDeclared {scope : TagScope} {content : String}
    (permitted : regime.permits .declared) :
    Work.Keeps (regime.Holds vacant) (Tagging.applyDeclared scope owner name content)
      fun _ => True := by
  refine keeps_mk_bind fun declared read => ?_
  refine keeps_bind keeps_findRepository fun repository found => ?_
  have housed := Store.houses_of_place? found
  refine keeps_of_leads fun store holds => Work.leads_bind.mpr ?_
  refine (leads_ensureDeclared permitted (MetaTags.admits_declared read scope) holds).mono ?_
    fun _ _ => id
  intro tags middle ended
  obtain ⟨middleHolds, -, fit⟩ := ended
  refine Work.leads_bind.mpr (leads_storeCall ?_ fun _ => middleHolds)
  intro _ after performed
  simp only [Store.perform] at performed
  split at performed
  · next replaced =>
    obtain ⟨-, rfl⟩ := Prod.mk.inj performed
    refine ⟨middleHolds.replaceTags permitted (fun tag member => ?_) replaced, trivial⟩
    exact ⟨(fit tag member).1, (fit tag member).2.symm ▸ housed⟩
  · cases (Prod.mk.inj performed).1

theorem keeps_clearDeclared {scope : TagScope} (permitted : regime.permits .declared) :
    Work.Keeps (regime.Holds vacant) (Tagging.clearDeclared scope owner name) fun _ => True :=
  keeps_bind keeps_findRepository fun _ _ =>
    keeps_askStore fun _ holds => holds.unlinkCategory permitted

theorem keeps_switchLibrary {scope : TagScope} {oldFile newFile : String}
    (permitted : (Tagging.tagOf scope oldFile).isSome ∨ (Tagging.tagOf scope newFile).isSome →
      regime.permits .library) :
    Work.Keeps (regime.Holds vacant) (Tagging.switchLibrary scope owner name oldFile newFile)
      fun _ => True := by
  have linked : ∀ (repository : Repository) (tag : String),
      regime.start.place? scope.repoType owner name = some repository.place →
      Tagging.tagOf scope newFile = some tag →
        Work.Keeps (regime.Holds vacant) (do
          let _ ← Tagging.link repository.id scope .library "" tag
          return ()) fun _ => True := by
    intro repository tag found isTag
    have libraryPermitted := permitted (Or.inr (Option.isSome_of_eq_some isTag))
    exact keeps_bind (keeps_link libraryPermitted rfl (Store.houses_of_place? found)) fun _ _ =>
      keeps_pure trivial
  unfold Tagging.switchLibrary
  dsimp only
  split
  · exact keeps_pure trivial
  · refine keeps_bind keeps_findRepository fun repository found => ?_
    cases old : Tagging.tagOf scope oldFile with
    | none =>
      cases new : Tagging.tagOf scope newFile with
      | none => exact keeps_pure trivial
      | some tag => exact linked repository tag found new
    | some oldTag =>
      have libraryPermitted := permitted (Or.inl (Option.isSome_of_eq_some old))
      refine keeps_bind (keeps_unlink libraryPermitted) fun _ _ => ?_
      cases new : Tagging.tagOf scope newFile with
      | none => exact keeps_pure trivial
      | some tag => exact linked repository tag found new

end Regime

end ModelHub
