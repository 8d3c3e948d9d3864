import DmaStream.Error

/-!
Why a path cannot be opened as a device node, in the part of the file tree that is known: the root
directory, `/dev` and the node `/dev/null`. Nothing else exists.
-/
namespace DmaStream.Path

/-- The places that a path may lead to. -/
inductive Place where
  | root
  | devices
  /-- A node that is no directory. -/
  | node
  /-- The directory relative paths start in. -/
  | working
  deriving DecidableEq

/-- The error number of a path that leads nowhere. -/
def noEntry : Nat := 2
def notDirectory : Nat := 20
def isDirectory : Nat := 21
def nameTooLong : Nat := 36

/-- Follow one component of a path. -/
def enter (place : Place) (component : String) : Except Nat Place :=
  if place = .node then .error notDirectory
  else if component = "" ∨ component = "." then .ok place
  else if component = ".." then .ok .root
  else if 255 < component.utf8ByteSize then .error nameTooLong
  else
    match place, component with
    | .root, "dev" => .ok .devices
    | .devices, "null" => .ok .node
    | _, _ => .error noEntry

/-- What a path leads to. -/
def resolve (path : String) : Except Nat Place :=
  if path = "" then .error noEntry
  else if 4096 ≤ path.utf8ByteSize then .error nameTooLong
  else
    match path.splitOn "/" with
    | "" :: components => components.foldlM enter .root
    | components => components.foldlM enter .working

/-- A path that cannot be opened for reading and writing, and why. -/
def openFailure (path : String) : Option IoFailure :=
  if path.contains '\x00' then some .nulInPath
  else
    match resolve path with
    | .error errno => some (.os errno)
    | .ok .node => none
    | .ok _ => some (.os isDirectory)

end DmaStream.Path
