import Mathlib.Tactic.Lemma
import Mathlib.Data.List.Infix

set_option relaxedAutoImplicit false
set_option autoImplicit false

/-!
# Errors

The crate-wide error type, with the constructors that the modelled code raises or distinguishes.

## Main definitions

* `AirDrive.Error` — the error type.
* `AirDrive.Error.isInsufficientPermissions` — the 403 that is never retried.
-/

namespace AirDrive

/-- The kinds of `std::io::Error` that the modelled filesystem calls raise. -/
inductive IoKind
  | notFound
  | alreadyExists
  | notADirectory
  | isADirectory
  | directoryNotEmpty
  | invalidInput
  | permissionDenied
  | storageFull
deriving DecidableEq, Repr

/-- The ways a database statement fails: a unique index, or a foreign key. -/
inductive Constraint
  | unique
  | foreignKey
deriving DecidableEq, Repr

/-- `Error`. -/
inductive Error
  | io (kind : IoKind)
  | sqlite (violated : Constraint)
  | drive (message : String)
  | driveHttp (status : ℕ) (body : String)
  | network (message : String)
  | oauth (message : String)
  | config (message : String)
  | mapping (message : String)
  | rclone (stderr : String)
  | toml (message : String)
deriving DecidableEq, Repr

/-- The reason Drive puts in the body of a 403 when the user may not change a file. -/
def insufficientFilePermissions : String := "insufficientFilePermissions"

/-- `is_insufficient_permissions`: a `403` whose body carries the
`insufficientFilePermissions` reason. -/
def Error.isInsufficientPermissions : Error → Bool
  | .driveHttp status body =>
    status = 403 && decide (insufficientFilePermissions.toList <:+: body.toList)
  | _ => false

end AirDrive
