import ModelHub.Domain.Kind
import ModelHub.Text.Case
import ModelHub.Text.Split

namespace ModelHub.LibraryTag

def fileName (path : String) : List Char :=
  match Text.splitLast '/' path.toList with
  | none => path.toList.map Text.lowerAscii
  | some (_, last) => last.map Text.lowerAscii

def extension? (file : List Char) : Option (List Char) :=
  (Text.splitLast '.' file).map Prod.snd

def weightExtensions : List (String × String) :=
  [("safetensors", "safetensors"), ("pt", "pytorch"), ("pth", "pytorch"), ("ckpt", "pytorch"),
   ("keras", "tensorflow"), ("onnx", "onnx"), ("gguf", "gguf"), ("mlmodel", "coreml"),
   ("nemo", "nemo"), ("tflite", "tflite"), ("joblib", "joblib")]

def dataExtensions : List (String × String) :=
  [("parquet", "parquet"), ("json", "json"), ("jsonl", "json"), ("csv", "csv")]

/-- Whole names come before extensions. -/
def weightTag? (file : List Char) : Option String :=
  (extension? file).bind fun extension =>
    if file = "tf_model.h5".toList then some "tensorflow"
    else if file = "flax_model.msgpack".toList then some "jax"
    else if (Text.dropLead? "pytorch_model".toList file).isSome && extension = "bin".toList then
      some "pytorch"
    else weightExtensions.lookup (String.ofList extension)

def dataTag? (file : List Char) : Option String :=
  (extension? file).bind fun extension => dataExtensions.lookup (String.ofList extension)

/-- Data formats mark datasets only; weights mark every kind of repository. -/
def ofFile? (scope : TagScope) (path : String) : Option String :=
  let file := fileName path
  match weightTag? file with
  | some tag => some tag
  | none => if scope = .dataset then dataTag? file else none

end ModelHub.LibraryTag
