import ModelHub.Store.Repositories

namespace ModelHub.Store

inductive RawField where
  | repositoryTime
  | mirrorTime
  | tagScope
  | tagCategory
  deriving DecidableEq, Repr

def writeTag (store : Store) (id : Int) (edit : TagRow → TagRow) : Store :=
  { store with tags := store.tags.map fun row => if row.id = id then edit row else row }

/-- Counts the rows that are written. The fields of tags cannot be left empty. -/
def writeRaw (store : Store) (id : Int) : RawField → Option String → Nat × Store
  | .repositoryTime, value =>
    (store.repositories.countP fun row => row.id = id, store.writeUpdatedAt id value)
  | .mirrorTime, value =>
    (store.mirrors.countP fun row => row.repositoryId = id, store.writeMirrorTime id value)
  | .tagScope, some value =>
    (store.tags.countP fun row => row.id = id,
      store.writeTag id fun row => { row with scope := value })
  | .tagCategory, some value =>
    (store.tags.countP fun row => row.id = id,
      store.writeTag id fun row => { row with category := value })
  | _, none => (0, store)

end ModelHub.Store
