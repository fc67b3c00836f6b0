import ModelHub.Failure.Error
import ModelHub.Text.Case

/-!
Laying out the tables of a store where there are views already.
-/

namespace ModelHub.Schema

/-- An index cannot be laid on a view, nor bear the name of one. -/
def indexed : List String :=
  ["runtime_architectures", "idx_runtime_arch_name", "idx_runtime_arch_model"]

def complaint : String := "views may not be indexed"

/-- Letters of both cases are the same. Other tables give way to views of their names. -/
def layOut (views : List String) : Except HubError Unit :=
  if views.any fun view => indexed.contains (Text.fold view) then
    .error (.database ("Failed to initialize schema: " ++ complaint))
  else .ok ()

end ModelHub.Schema
