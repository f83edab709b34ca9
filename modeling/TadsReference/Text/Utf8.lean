/-!
# Decoding UTF-8

Bytes are decoded one at a time by a small machine. A longest run of bytes that begins a
character but cannot be continued to one, and each byte that begins none, counts as one fault.
-/

namespace TadsReference.Text.Utf8

/-- A character of which the first bytes have been read. -/
structure Pending where
  /-- The bits read so far. -/
  bits : Nat
  /-- How many bytes are still to come. -/
  missing : Nat
  /-- The least and the greatest value that the next byte may have. -/
  least : Nat
  greatest : Nat

/-- A decoder: the character being read and all that was decoded, last first. A fault is `none`. -/
structure Decoder where
  pending : Option Pending
  decoded : List (Option Char)

/-- Reads a byte that begins a character. -/
def Decoder.start (decoder : Decoder) (byte : Nat) : Decoder :=
  if byte < 0x80 then
    { pending := none, decoded := some (Char.ofNat byte) :: decoder.decoded }
  else if 0xC2 ≤ byte && byte ≤ 0xDF then
    { decoder with pending := some ⟨byte - 0xC0, 1, 0x80, 0xBF⟩ }
  else if 0xE0 ≤ byte && byte ≤ 0xEF then
    { decoder with
      pending := some ⟨byte - 0xE0, 2, if byte == 0xE0 then 0xA0 else 0x80,
        if byte == 0xED then 0x9F else 0xBF⟩ }
  else if 0xF0 ≤ byte && byte ≤ 0xF4 then
    { decoder with
      pending := some ⟨byte - 0xF0, 3, if byte == 0xF0 then 0x90 else 0x80,
        if byte == 0xF4 then 0x8F else 0xBF⟩ }
  else
    { pending := none, decoded := none :: decoder.decoded }

/-- Reads a byte. -/
def Decoder.read (decoder : Decoder) (byte : UInt8) : Decoder :=
  match decoder.pending with
  | none => decoder.start byte.toNat
  | some pending =>
      if pending.least ≤ byte.toNat && byte.toNat ≤ pending.greatest then
        let bits := pending.bits * 0x40 + (byte.toNat - 0x80)
        if pending.missing == 1 then
          { pending := none, decoded := some (Char.ofNat bits) :: decoder.decoded }
        else
          { decoder with pending := some ⟨bits, pending.missing - 1, 0x80, 0xBF⟩ }
      else
        Decoder.start { pending := none, decoded := none :: decoder.decoded } byte.toNat

/-- All that was decoded, in order. A character that the end of the bytes cuts short is a fault. -/
def Decoder.finish (decoder : Decoder) : List (Option Char) :=
  match decoder.pending with
  | none => decoder.decoded.reverse
  | some _ => (none :: decoder.decoded).reverse

/-- The characters and faults of a sequence of bytes. -/
def scan (bytes : List UInt8) : List (Option Char) :=
  (bytes.foldl Decoder.read ⟨none, []⟩).finish

/-- The text with a replacement character in the place of each fault. -/
def decode (bytes : List UInt8) : List Char :=
  (scan bytes).map (·.getD '\uFFFD')

/-- The text, if the bytes hold no fault. -/
def decode? (bytes : List UInt8) : Option (List Char) :=
  (scan bytes).mapM id

end TadsReference.Text.Utf8
