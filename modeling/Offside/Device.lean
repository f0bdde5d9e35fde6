import Offside.Error

set_option autoImplicit false

namespace Offside

inductive Device where
  | script (pending : List Char)
  | bytes (pending : List UInt8)
deriving DecidableEq, Repr

namespace Device

def width (lead : UInt8) : Nat :=
  if lead < 0x80 then 1
  else if lead < 0xc0 then 4
  else if lead < 0xe0 then 2
  else if lead < 0xf0 then 3
  else 4

def decode (bytes : List UInt8) : Option Char :=
  match (ByteArray.mk bytes.toArray).utf8DecodeChar? 0 with
  | some c => if c.utf8Size = bytes.length then some c else none
  | none => none

-- Takes the bytes of one character, whether they encode one or not; bytes too few for it are used up.
def readBytes : List UInt8 → Except InputError Char × List UInt8
  | [] => (.error .bytesEnded, [])
  | lead :: rest =>
      let more := rest.take (width lead - 1)
      if more.length < width lead - 1 then (.error .bytesEnded, [])
      else
        match decode (lead :: more) with
        | some c => (.ok c, rest.drop (width lead - 1))
        | none => (.error .notUtf8, rest.drop (width lead - 1))

def read : Device → Except InputError Char × Device
  | .script [] => (.error .scriptEnded, .script [])
  | .script (c :: rest) => (.ok c, .script rest)
  | .bytes pending =>
      match readBytes pending with
      | (answer, rest) => (answer, .bytes rest)

def readMany : Nat → Device → List (Except InputError Char)
  | 0, _ => []
  | count + 1, device =>
      match device.read with
      | (answer, rest) => answer :: readMany count rest

end Device

end Offside
