import DeclManual.Options.Choice
import DeclManual.Options.Error
import DeclManual.Text.Search

/-!
# Placement of pages

Pages of each object kind can be put into a subdirectory of the output
directory, with a file extension of their own.
-/

namespace DeclManual

/-- Where pages of one object kind go. -/
structure Placement where
  /-- A subdirectory of the output directory. -/
  subdir : Option String := none
  /-- The file extension; the manual section if there is none. -/
  extension : Option String := none
deriving DecidableEq, Repr, Inhabited

/-- The placement of every object kind. -/
structure Placements where
  function : Placement := {}
  dataObject : Placement := {}
  staticFunction : Placement := {}
  staticVariable : Placement := {}
deriving DecidableEq, Repr, Inhabited

namespace Placements

/-- The placement of one kind. -/
def get (placements : Placements) : ObjectKind -> Placement
  | .function => placements.function
  | .dataObject => placements.dataObject
  | .staticFunction => placements.staticFunction
  | .staticVariable => placements.staticVariable

/-- Changes the placement of one kind. -/
def set (placements : Placements) (kind : ObjectKind) (placement : Placement) : Placements :=
  match kind with
  | .function => { placements with function := placement }
  | .dataObject => { placements with dataObject := placement }
  | .staticFunction => { placements with staticFunction := placement }
  | .staticVariable => { placements with staticVariable := placement }

/-- Applies a change written as a kind's flag, a subdirectory and, after a dot,
an extension, such as `Finternal.3s`. -/
def applySpec (placements : Placements) (spec : String) : Except OptionError Placements :=
  match spec.toList with
  | [] => .error (.invalidObjectOption spec)
  | flag :: rest =>
    match ObjectKind.ofFlag? flag with
    | none => .error (.invalidObjectOption spec)
    | some kind =>
      match Text.splitFirst? '.' rest with
      | some (subdir, extension) =>
        .ok (placements.set kind
          { subdir := some (String.ofList subdir), extension := some (String.ofList extension) })
      | none =>
        .ok (placements.set kind
          { placements.get kind with subdir := some (String.ofList rest) })

end Placements
end DeclManual
