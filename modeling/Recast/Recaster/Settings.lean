import Recast.Error
import Recast.Recaster.Options
import Recast.Toml.Reader

/-! # Options from a document

The options of recasting stand in one table of a TOML document.  What
is missing keeps its default; the first entry that is not understood is an error.
-/

namespace Recast

namespace RecastOptions

def readEntry (o : RecastOptions) (key : String) (v : Toml.Value) :
    Except MappingError RecastOptions :=
  let unexpected := .error (.invalidOptions ("unexpected value " ++ v.display ++ " for " ++ key))
  match key, v with
  | "ignore_validations", .boolean b => .ok { o with ignoreValidations := b }
  | "max_depth", .integer n => if 0 < n then .ok { o with maxDepth := n.toNat } else unexpected
  | _, _ => unexpected

def readEntries (o : RecastOptions) :
    List (String × Toml.Value) → Except MappingError RecastOptions
  | [] => .ok o
  | (key, v) :: entries => do
    let o ← o.readEntry key v
    readEntries o entries

/-- The options that a document sets. -/
def ofToml (s : String) : Except MappingError RecastOptions :=
  match Toml.parse? s with
  | none => .error .unreadableOptions
  | some document =>
    match document.entry? "rewrite" with
    | none => .ok {}
    | some (.table entries) => readEntries {} entries
    | some _ => .error (.invalidOptions "rewrite must be a table")

end RecastOptions

end Recast
