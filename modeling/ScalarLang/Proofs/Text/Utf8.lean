import Mathlib.Tactic
import ScalarLang.Text.Utf8

/-!
# Decoding inverts encoding

The encoding of a character starts with a byte that announces its continuation bytes and carries
the highest bits of the code point `v`; each continuation byte carries six more. We prove
`decode_encode`: characters that are encoded are read back.
-/

namespace ScalarLang.Utf8

/-- A first byte below `0x80` announces no continuation byte. -/
theorem lead_one {x : Nat} (h : x < 0x80) : lead x = some (0, x, 0) := by
  rw [lead, if_pos h]

/-- The first byte of an encoding of two bytes. -/
theorem lead_two {x : Nat} (h : x < 0x20) : lead (x + 0xC0) = some (1, x, 0x80) := by
  rw [lead, if_neg (by omega), if_neg (by omega), if_pos (by omega), Nat.add_sub_cancel]

/-- The first byte of an encoding of three bytes. -/
theorem lead_three {x : Nat} (h : x < 0x10) : lead (x + 0xE0) = some (2, x, 0x800) := by
  rw [lead, if_neg (by omega), if_neg (by omega), if_neg (by omega), if_pos (by omega),
    Nat.add_sub_cancel]

/-- The first byte of an encoding of four bytes. -/
theorem lead_four {x : Nat} (h : x < 0x08) : lead (x + 0xF0) = some (3, x, 0x10000) := by
  rw [lead, if_neg (by omega), if_neg (by omega), if_neg (by omega), if_neg (by omega),
    if_pos (by omega), Nat.add_sub_cancel]

/-- A byte is the number it was made of. -/
theorem toNat_ofNat {x : Nat} (h : x < 256) : (UInt8.ofNat x).toNat = x := by
  rw [UInt8.toNat_ofNat']
  exact Nat.mod_eq_of_lt h

/-- A continuation byte adds its six bits. -/
theorem continued_cons {x : Nat} (h : x < 0x40) (count share : Nat) (bytes : List UInt8) :
    continued (count + 1) share (UInt8.ofNat (x + 0x80) :: bytes)
      = continued count (share * 64 + x) bytes := by
  rw [continued, toNat_ofNat (by omega), if_pos (by omega), Nat.add_sub_cancel]

/-- A first byte and continuation bytes that make up the code point of `c`, in no more bytes than it
needs, are read as `c`. -/
theorem leading?_eq_some {byte : UInt8} {bytes : List UInt8} {count share least : Nat} {c : Char}
    (hlead : lead byte.toNat = some (count, share, least))
    (hcontinued : continued count share bytes = some c.val.toNat) (hleast : least ≤ c.val.toNat) :
    leading? byte bytes = some (c, count) := by
  have hvalid : c.val.toNat.isValidChar := c.valid
  have hchar : Char.ofNat c.val.toNat = c := Char.ofNat_toNat c
  simp only [leading?, hlead, Option.bind_eq_bind, Option.bind_some, hcontinued, hchar]
  rw [if_pos ⟨hleast, hvalid⟩]

/-- Bytes that belong to a character read already are stepped over. -/
theorem decodeFrom_append (bytes rest : List UInt8) :
    decodeFrom bytes.length (bytes ++ rest) = decodeFrom 0 rest := by
  induction bytes with
  | nil => rfl
  | cons byte bytes ih => exact ih

/-- A character is read as such from its first byte and its continuation bytes. -/
theorem decodeFrom_cons {byte : UInt8} {bytes rest : List UInt8} {c : Char}
    (h : leading? byte (bytes ++ rest) = some (c, bytes.length)) :
    decodeFrom 0 (byte :: bytes ++ rest) = c :: decodeFrom 0 rest := by
  rw [List.cons_append, decodeFrom, h]
  simp only [decodeFrom_append]

/-- The encoding of a character starts with a byte that announces the others, whatever follows. -/
theorem exists_leading?_utf8EncodeChar (c : Char) (rest : List UInt8) :
    ∃ byte bytes, String.utf8EncodeChar c = byte :: bytes ∧
      leading? byte (bytes ++ rest) = some (c, bytes.length) := by
  have hmax : c.val.toNat < 0x110000 := by
    rcases c.valid with h | h <;> omega
  unfold String.utf8EncodeChar
  dsimp only
  -- one case for each number of bytes; the bounds on the code point say that it needs as many
  split_ifs with h1 h2 h3
  · have hlead : lead (UInt8.ofNat c.val.toNat).toNat = some (0, c.val.toNat, 0) := by
      rw [toNat_ofNat (by omega), lead_one (by omega)]
    exact ⟨_, _, rfl, leading?_eq_some hlead rfl (Nat.zero_le _)⟩
  · have hlead := lead_two (x := c.val.toNat / 64 % 0x20) (by omega)
    rw [← toNat_ofNat (x := c.val.toNat / 64 % 0x20 + 0xC0) (by omega)] at hlead
    refine ⟨_, _, rfl, leading?_eq_some hlead ?_ (by omega)⟩
    change continued 1 _ _ = _
    rw [List.cons_append, continued_cons (by omega), continued]
    exact congrArg some (by omega)
  · have hlead := lead_three (x := c.val.toNat / 4096 % 0x10) (by omega)
    rw [← toNat_ofNat (x := c.val.toNat / 4096 % 0x10 + 0xE0) (by omega)] at hlead
    refine ⟨_, _, rfl, leading?_eq_some hlead ?_ (by omega)⟩
    change continued 2 _ _ = _
    rw [List.cons_append, List.cons_append, continued_cons (by omega), continued_cons (by omega),
      continued]
    exact congrArg some (by omega)
  · have hlead := lead_four (x := c.val.toNat / 262144 % 0x08) (by omega)
    rw [← toNat_ofNat (x := c.val.toNat / 262144 % 0x08 + 0xF0) (by omega)] at hlead
    refine ⟨_, _, rfl, leading?_eq_some hlead ?_ (by omega)⟩
    change continued 3 _ _ = _
    rw [List.cons_append, List.cons_append, List.cons_append, continued_cons (by omega),
      continued_cons (by omega), continued_cons (by omega), continued]
    exact congrArg some (by omega)

/-- The encoding of a character is read back, whatever follows it. -/
theorem decodeFrom_utf8EncodeChar (c : Char) (rest : List UInt8) :
    decodeFrom 0 (String.utf8EncodeChar c ++ rest) = c :: decodeFrom 0 rest := by
  obtain ⟨byte, bytes, hencode, hleading⟩ := exists_leading?_utf8EncodeChar c rest
  rw [hencode]
  exact decodeFrom_cons hleading

/-- Encoded characters are read back. -/
theorem decode_encode (cs : List Char) : decode (encode cs) = cs := by
  unfold decode encode
  induction cs with
  | nil => rfl
  | cons c cs ih => rw [List.flatMap_cons, decodeFrom_utf8EncodeChar, ih]

end ScalarLang.Utf8
