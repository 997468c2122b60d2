import Mathlib.Data.List.DropRight

/-! # Unix paths

Byte strings with `/` between names. Empty names and `.` stand for nothing, except that a path
may start with `.`; taking a base off a path drops them around what is left and keeps them
inside it.
-/

namespace UnixPath

/-- A path as the operating system has it. -/
abbrev Path := List UInt8

/-- The byte between names. -/
def SEPARATOR : UInt8 := 47

/-- What a path starts with, ahead of its names. -/
inductive Lead where
  | root
  | curDir
  | nothing
  deriving DecidableEq, Repr

/-- Whether a name stands for nothing. -/
def isJunk (name : List UInt8) : Bool := name = [] ∨ name = [46]

/-- The parts between separators, and what is ahead of them. -/
def parts (path : Path) : Lead × List (List UInt8) :=
  if path.head? = some SEPARATOR then (.root, (path.drop 1).splitOn SEPARATOR)
  else
    match path.splitOn SEPARATOR with
    | [46] :: names => (.curDir, names)
    | names => (.nothing, names)

/-- The names a path leads along, and whether it starts from the root. -/
def location (path : Path) : Bool × List (List UInt8) :=
  ((parts path).1 = .root, (parts path).2.filter fun name => ¬isJunk name)

/-- Put names together. -/
def join (names : List (List UInt8)) : Path := List.intercalate [SEPARATOR] names

/-- Drop the names that stand for nothing at the end. -/
def trimRight (names : List (List UInt8)) : List (List UInt8) := names.rdropWhile isJunk

/-- A path without trailing separators. -/
def trimPath (path : Path) : Path :=
  match parts path with
  | (.root, names) => SEPARATOR :: join (trimRight names)
  | (.curDir, names) => join ([46] :: trimRight names)
  | (.nothing, names) => join (trimRight names)

/-- The parts after some names, which must come first. -/
def partsAfter : (names base : List (List UInt8)) → Option (List (List UInt8))
  | names, [] => some names
  | [], _ :: _ => none
  | name :: names, first :: base =>
      if isJunk name then partsAfter names (first :: base)
      else if name = first then partsAfter names base
      else none

/-- What is left of a path when a base is taken off, if it starts with that base. -/
def stripPrefix (path base : Path) : Option Path :=
  if base = [] then some (trimPath path)
  else
    let (lead, names) := parts path
    let (baseLead, baseNames) := parts base
    if lead ≠ baseLead then none
    else
      (partsAfter names (baseNames.filter fun name => ¬isJunk name)).map fun rest =>
        join (trimRight (rest.dropWhile isJunk))

end UnixPath
