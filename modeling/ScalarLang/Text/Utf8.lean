/-!
# UTF-8

Reading bytes as characters, whatever the bytes are. Where a well-formed encoding of a scalar
value starts, it is read as that character; any other byte is read by itself as the replacement
character. Overlong forms, surrogates, values beyond the last code point and truncated forms are
not well-formed.

* `Utf8.decode` reads a whole byte sequence.
* `Utf8.encode` writes characters as bytes.
-/

namespace ScalarLang.Utf8

/-- The character that stands for a byte outside every well-formed encoding. -/
def replacement : Char := '�'

/-- What a first byte announces: the number of continuation bytes, its own share of the code
point, and the least code point that needs that many bytes. -/
def lead (byte : Nat) : Option (Nat × Nat × Nat) :=
  if byte < 0x80 then some (0, byte, 0)
  else if byte < 0xC0 then none
  else if byte < 0xE0 then some (1, byte - 0xC0, 0x80)
  else if byte < 0xF0 then some (2, byte - 0xE0, 0x800)
  else if byte < 0xF8 then some (3, byte - 0xF0, 0x10000)
  else none

/-- `share` followed by the six bits of each of the `count` continuation bytes that `bytes` has
to start with. -/
def continued : Nat → Nat → List UInt8 → Option Nat
  | 0, share, _ => some share
  | _ + 1, _, [] => none
  | count + 1, share, byte :: bytes =>
    if 0x80 ≤ byte.toNat ∧ byte.toNat < 0xC0 then
      continued count (share * 64 + (byte.toNat - 0x80)) bytes
    else none

/-- The character whose encoding `byte :: bytes` starts with, and the number of continuation
bytes it takes. -/
def leading? (byte : UInt8) (bytes : List UInt8) : Option (Char × Nat) := do
  let (count, share, least) ← lead byte.toNat
  let code ← continued count share bytes
  if least ≤ code ∧ code.isValidChar then some (Char.ofNat code, count) else none

/-- Reads `bytes` after stepping over the first `skip` of them, which belong to a character that
has been read already. -/
def decodeFrom : Nat → List UInt8 → List Char
  | _, [] => []
  | skip + 1, _ :: bytes => decodeFrom skip bytes
  | 0, byte :: bytes =>
    match leading? byte bytes with
    | some (c, count) => c :: decodeFrom count bytes
    | none => replacement :: decodeFrom 0 bytes

/-- The characters of a byte sequence, one replacement character for each stray byte. -/
def decode (bytes : List UInt8) : List Char :=
  decodeFrom 0 bytes

/-- The encoding of a sequence of characters. -/
def encode (cs : List Char) : List UInt8 :=
  cs.flatMap String.utf8EncodeChar

end ScalarLang.Utf8
