import ModelHub.Failure.Error
import ModelHub.Text.Split

namespace ModelHub

structure PushFailure where
  errors : List HubError
  nonempty : errors ≠ []
  deriving DecidableEq

namespace PushFailure

def single (e : HubError) : PushFailure := ⟨[e], by simp⟩

def isRetryable (failure : PushFailure) : Bool := failure.errors.any HubError.isRetryable

def message (failure : PushFailure) : String :=
  Text.join "\n" (failure.errors.map HubError.message)

def first (failure : PushFailure) : HubError := failure.errors.head failure.nonempty

end PushFailure

abbrev PushResult := Except PushFailure Unit

namespace PushResult

def ofErrors : List HubError → PushResult
  | [] => .ok ()
  | e :: rest => .error ⟨e :: rest, by simp⟩

def errors : PushResult → List HubError
  | .ok _ => []
  | .error failure => failure.errors

@[simp] theorem errors_ofErrors (es : List HubError) : errors (ofErrors es) = es := by
  cases es <;> rfl

end PushResult

end ModelHub
