import ModelHub.Failure.Error
import ModelHub.Store.Table

namespace ModelHub

namespace TagRow

def isFor (scope : TagScope) (category : TagCategory) (group name : String) (row : TagRow) : Bool :=
  row.scope = scope.name && row.category = category.name && row.group = group && row.name = name

def read (row : TagRow) : Except HubError Tag :=
  match TagScope.ofName? row.scope with
  | none => .error (.database ("unknown tag scope '" ++ row.scope ++ "'"))
  | some scope =>
    match TagCategory.ofName? row.category with
    | none => .error (.database ("unknown tag category '" ++ row.category ++ "'"))
    | some category =>
      .ok { id := row.id, scope := scope, category := category, group := row.group
            name := row.name }

/-- By category, then group, then name, all as text; rows that are equal in these go by number. -/
def le (a b : TagRow) : Bool :=
  if a.category ≠ b.category then decide (a.category ≤ b.category)
  else if a.group ≠ b.group then decide (a.group ≤ b.group)
  else if a.name ≠ b.name then decide (a.name ≤ b.name)
  else decide (a.id ≤ b.id)

end TagRow

namespace Store

def findTag? (store : Store) (scope : TagScope) (category : TagCategory) (group name : String) :
    Option Tag :=
  (store.tags.find? (TagRow.isFor scope category group name)).map fun row =>
    { id := row.id, scope := scope, category := category, group := group, name := name }

/-- The tag of that name, which is added if it is missing. Either way a number is used up. -/
def ensureTag (store : Store) (scope : TagScope) (category : TagCategory) (group name : String) :
    Tag × Store :=
  let id := store.lastTagId + 1
  match store.findTag? scope category group name with
  | some tag => (tag, { store with lastTagId := id })
  | none =>
    ({ id := id, scope := scope, category := category, group := group, name := name },
      { store with
        tags := store.tags ++ [{ id, scope := scope.name, category := category.name, group, name }]
        lastTagId := id })

def isLinked (store : Store) (repositoryId tagId : Int) : Bool :=
  decide ({ repositoryId, tagId } ∈ store.links)

def tagRowsOf (store : Store) (repositoryId : Int) (category : Option TagCategory) : List TagRow :=
  (store.tags.filter fun row =>
    store.isLinked repositoryId row.id && category.all fun c => row.category = c.name).mergeSort
    TagRow.le

def tagsOf (store : Store) (repositoryId : Int) (category : Option TagCategory) :
    Except HubError (List Tag) :=
  (store.tagRowsOf repositoryId category).mapM TagRow.read

def link (store : Store) (repositoryId tagId : Int) : Bool × Store :=
  (!store.isLinked repositoryId tagId,
    { store with links := insertNew { repositoryId, tagId } store.links })

def unlink (store : Store) (repositoryId tagId : Int) : Bool × Store :=
  let (present, links) := deleteRow { repositoryId, tagId } store.links
  (present, { store with links := links })

def hasCategory (store : Store) (category : TagCategory) (tagId : Int) : Bool :=
  store.tags.any fun row => row.id = tagId && row.category = category.name

def unlinkCategory (store : Store) (repositoryId : Int) (category : TagCategory) : Nat × Store :=
  let (count, links) := deleteWhere
    (fun link => link.repositoryId = repositoryId && store.hasCategory category link.tagId)
    store.links
  (count, { store with links := links })

def linkAll (store : Store) (repositoryId : Int) (tags : List Tag) : Store :=
  tags.foldl (fun store tag => (store.link repositoryId tag.id).2) store

/-- Replaces all links to tags of a category, or none if one of the tags is of another category. -/
def replaceTags (store : Store) (repositoryId : Int) (category : TagCategory) (tags : List Tag) :
    Except HubError Store :=
  match tags.find? fun tag => tag.category ≠ category with
  | some stray =>
    .error (.database ("tag '" ++ stray.name ++ "' is " ++ stray.category.name ++
      " but replacement targets " ++ category.name))
  | none => .ok ((store.unlinkCategory repositoryId category).2.linkAll repositoryId tags)

end Store

end ModelHub
