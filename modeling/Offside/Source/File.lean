import Offside.Error
import Offside.Table

set_option autoImplicit false

namespace Offside

inductive File where
  | content (bytes : ByteArray)
  | directory
  | missing

namespace File

def read : File → Except FileError String
  | .content bytes =>
      match String.fromUTF8? bytes with
      | some text => .ok text
      | none => .error .notUtf8
  | .directory => .error .isDirectory
  | .missing => .error .missing

end File

-- The directory in which a command is given; the directories in it are empty.
abbrev Folder := Table File

namespace Folder

inductive Spot where
  | above
  | here
  | inside (file : File)

def nameLimit : Nat := 255

def pathLimit : Nat := 4095

-- What a name leads to from a spot. A name that is too long is refused only where names are looked up.
def enter (folder : Folder) (spot : Spot) (name : String) : Except FileError Spot :=
  if nameLimit < name.utf8ByteSize then .error .nameTooLong
  else
    match spot with
    | .here => .ok (.inside ((Table.find name folder).getD .missing))
    | .inside _ | .above => .error .missing

def follow (folder : Folder) : Spot → List (List Char) → Except FileError File
  | .above, [] | .here, [] => .ok .directory
  | .inside file, [] => .ok file
  | .inside (.content _), _ :: _ => .error .notDirectory
  | .inside .missing, _ :: _ => .error .missing
  | spot, part :: more =>
      if part = [] ∨ part = ['.'] then follow folder spot more
      else if part = ['.', '.'] then
        match spot with
        | .inside _ => follow folder .here more
        | .here | .above => follow folder .above more
      else
        match enter folder spot (String.ofList part) with
        | .ok reached => follow folder reached more
        | .error cause => .error cause

def parts : List Char → List (List Char)
  | [] => [[]]
  | c :: rest =>
      if c = '/' then [] :: parts rest
      else
        match parts rest with
        | [] => [[c]]
        | part :: more => (c :: part) :: more

def locate (folder : Folder) (path : String) : Except FileError File :=
  if pathLimit < path.utf8ByteSize then .error .nameTooLong
  else follow folder (if path.toList.head? = some '/' then .above else .here) (parts path.toList)

def read (folder : Folder) (path : String) : Except FileError String := (folder.locate path).bind File.read

end Folder

end Offside
