import Offside.Error

set_option autoImplicit false

namespace Offside.Source

def append (source text : String) : String :=
  match source.toList.getLast? with
  | none => text
  | some last => if last = '\n' then source ++ text else source ++ "\n" ++ text

def joinOnto (source : String) : List (Except FileError String) → Except Error String
  | [] => .ok source
  | .ok text :: more => joinOnto (append source text) more
  | .error cause :: _ => .error (.file cause)

def join (files : List (Except FileError String)) : Except Error String := joinOnto "" files

end Offside.Source
