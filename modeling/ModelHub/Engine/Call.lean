import ModelHub.Domain.Record
import ModelHub.Time.Duration

namespace ModelHub

inductive StoreCall where
  | findRepository (repoType : RepoType) (owner name : String)
  | setUpdatedAt (repositoryId : Int) (instant : Instant)
  | touchMirror (repositoryId : Int) (instant : Instant)
  | ensureTag (scope : TagScope) (category : TagCategory) (group name : String)
  | findTag (scope : TagScope) (category : TagCategory) (group name : String)
  | listTags (repositoryId : Int) (category : Option TagCategory)
  | link (repositoryId tagId : Int)
  | unlink (repositoryId tagId : Int)
  | replaceTags (repositoryId : Int) (category : TagCategory) (tags : List Tag)
  | unlinkCategory (repositoryId : Int) (category : TagCategory)
  | listCandidates (architecture model : String)
  | findFramework (id : Int)
  | listResources (model : String)
  | listAssociations (repositoryId : Int)
  | associate (association : Association)
  | dissociate (association : Association)
  | dissociateAll (repositoryId : Int)
  deriving DecidableEq, Repr

namespace StoreCall

@[reducible] def Reply : StoreCall → Type
  | findRepository .. => Option Repository
  | setUpdatedAt .. => Unit
  | touchMirror .. => Bool
  | ensureTag .. => Tag
  | findTag .. => Option Tag
  | listTags .. => List Tag
  | link .. => Bool
  | unlink .. => Bool
  | replaceTags .. => Unit
  | unlinkCategory .. => Nat
  | listCandidates .. => List Candidate
  | findFramework _ => Option Framework
  | listResources _ => List String
  | listAssociations _ => List Association
  | associate _ => Bool
  | dissociate _ => Bool
  | dissociateAll _ => Nat

def isOrder : StoreCall → Bool
  | setUpdatedAt .. | touchMirror .. | ensureTag .. | link .. | unlink .. => true
  | replaceTags .. | unlinkCategory .. | associate _ | dissociate _ | dissociateAll _ => true
  | findRepository .. | findTag .. | listTags .. | listCandidates .. => false
  | findFramework _ | listResources _ | listAssociations _ => false

end StoreCall

structure FileRequest where
  repoType : RepoType
  owner : String
  name : String
  reference : String
  path : String
  deriving DecidableEq, Repr

inductive Call where
  | store (request : StoreCall)
  | fetch (request : FileRequest) (limit : Duration)
  | submit (repoType : RepoType) (owner name : String) (limit : Duration)
  | now
  | isCancelled
  | acquire (repositoryId : Int)
  | release (repositoryId : Int)
  deriving DecidableEq, Repr

namespace Call

@[reducible] def Reply : Call → Type
  | store request => request.Reply
  | fetch .. => String
  | submit .. => Unit
  | now => Instant
  | isCancelled => Bool
  | acquire _ => Unit
  | release _ => Unit

end Call

end ModelHub
