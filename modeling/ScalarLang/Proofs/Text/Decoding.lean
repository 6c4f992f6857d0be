import ScalarLang.Proofs.Text.Utf8

/-!
# What bytes are read as

`Decoded bytes cs` says which characters a byte sequence stands for without saying how they are
found: each encoding of a character is read as that character, and a byte where no encoding starts
is read as one replacement character. This file proves:

* `decoded_iff`: every byte sequence has this one reading, and `decode` gives it;
* `decode_append_byte`: a character of one byte cuts the reading in two, also behind an encoding
  that lacks some of its bytes;
* `count_decode`: the line feeds among the bytes are those among the characters.
-/

namespace ScalarLang.Utf8

/-- The characters that a byte sequence stands for. -/
inductive Decoded : List UInt8 → List Char → Prop
  | nil : Decoded [] []
  /-- The encoding of a character comes first. -/
  | char (c : Char) {bytes : List UInt8} {cs : List Char} (h : Decoded bytes cs) :
      Decoded (String.utf8EncodeChar c ++ bytes) (c :: cs)
  /-- A byte comes first where no encoding starts. -/
  | stray {byte : UInt8} {bytes : List UInt8} {cs : List Char}
      (hbyte : ∀ c, ¬String.utf8EncodeChar c <+: byte :: bytes) (h : Decoded bytes cs) :
      Decoded (byte :: bytes) (replacement :: cs)

/-! ## Only encodings are read as characters -/

/-- A byte is made of its number. -/
theorem eq_ofNat_of_toNat_eq {byte : UInt8} {x : Nat} (h : byte.toNat = x) :
    byte = UInt8.ofNat x := by
  rw [← h, UInt8.ofNat_toNat]

/-- What a first byte that announces something is made of. -/
theorem cases_of_lead {byte : UInt8} {count share least : Nat}
    (h : lead byte.toNat = some (count, share, least)) :
    (count = 0 ∧ least = 0 ∧ share < 0x80 ∧ byte = UInt8.ofNat share) ∨
      (count = 1 ∧ least = 0x80 ∧ share < 0x20 ∧ byte = UInt8.ofNat (share + 0xC0)) ∨
        (count = 2 ∧ least = 0x800 ∧ share < 0x10 ∧ byte = UInt8.ofNat (share + 0xE0)) ∨
          (count = 3 ∧ least = 0x10000 ∧ share < 0x08 ∧ byte = UInt8.ofNat (share + 0xF0)) := by
  unfold lead at h
  split_ifs at h with h0 h1 h2 h3 h4
  all_goals
    simp only [Option.some.injEq, Prod.mk.injEq] at h
    obtain ⟨rfl, rfl, rfl⟩ := h
  · exact .inl ⟨rfl, rfl, h0, eq_ofNat_of_toNat_eq rfl⟩
  · exact .inr (.inl ⟨rfl, rfl, by omega, eq_ofNat_of_toNat_eq (by omega)⟩)
  · exact .inr (.inr (.inl ⟨rfl, rfl, by omega, eq_ofNat_of_toNat_eq (by omega)⟩))
  · exact .inr (.inr (.inr ⟨rfl, rfl, by omega, eq_ofNat_of_toNat_eq (by omega)⟩))

/-- No continuation byte is left to be read. -/
theorem eq_of_continued_zero {share code : Nat} {bytes : List UInt8}
    (h : continued 0 share bytes = some code) : code = share := by
  rw [continued] at h
  exact (Option.some.inj h).symm

/-- A continuation byte that is read adds its six bits. -/
theorem exists_of_continued_succ {count share code : Nat} {bytes : List UInt8}
    (h : continued (count + 1) share bytes = some code) :
    ∃ x rest, x < 0x40 ∧ bytes = UInt8.ofNat (x + 0x80) :: rest ∧
      continued count (share * 64 + x) rest = some code := by
  cases bytes with
  | nil => simp [continued] at h
  | cons byte rest =>
    rw [continued] at h
    split_ifs at h with hrange
    have hbyte : byte = UInt8.ofNat (byte.toNat - 0x80 + 0x80) :=
      eq_ofNat_of_toNat_eq (by omega)
    exact ⟨byte.toNat - 0x80, rest, by omega, congrArg (· :: rest) hbyte, h⟩

/-- A character that is read has the code point that its bytes make up, in no more bytes than it
needs. -/
theorem exists_of_leading? {byte : UInt8} {bytes : List UInt8} {c : Char} {count : Nat}
    (h : leading? byte bytes = some (c, count)) :
    ∃ share least, lead byte.toNat = some (count, share, least) ∧
      continued count share bytes = some c.val.toNat ∧ least ≤ c.val.toNat := by
  simp only [leading?, Option.bind_eq_bind, Option.bind_eq_some_iff] at h
  obtain ⟨⟨count', share, least⟩, hlead, code, hcontinued, h⟩ := h
  split_ifs at h with hcode
  obtain ⟨hleast, hvalid⟩ := hcode
  simp only [Option.some.injEq, Prod.mk.injEq] at h
  obtain ⟨rfl, rfl⟩ := h
  have hval : (Char.ofNat code).val.toNat = code := by
    unfold Char.ofNat
    rw [dif_pos hvalid]
    rfl
  rw [hval]
  exact ⟨share, least, hlead, hcontinued, hleast⟩

section Encoding

variable {c : Char} {x y z w : Nat}

/-- The encoding of a code point of seven bits. -/
theorem utf8EncodeChar_one (h : c.val.toNat = x) (hx : x < 0x80) :
    String.utf8EncodeChar c = [UInt8.ofNat x] := by
  rw [String.utf8EncodeChar, h]
  exact if_pos (by omega)

/-- The encoding of a code point that needs two bytes. -/
theorem utf8EncodeChar_two (h : c.val.toNat = x * 64 + y) (hleast : 0x80 ≤ c.val.toNat)
    (hx : x < 0x20) (hy : y < 0x40) :
    String.utf8EncodeChar c = [UInt8.ofNat (x + 0xC0), UInt8.ofNat (y + 0x80)] := by
  rw [String.utf8EncodeChar, if_neg (by omega), if_pos (by omega)]
  have hx' : c.val.toNat / 64 % 0x20 = x := by omega
  have hy' : c.val.toNat % 64 = y := by omega
  rw [hx', hy']

/-- The encoding of a code point that needs three bytes. -/
theorem utf8EncodeChar_three (h : c.val.toNat = (x * 64 + y) * 64 + z)
    (hleast : 0x800 ≤ c.val.toNat) (hx : x < 0x10) (hy : y < 0x40) (hz : z < 0x40) :
    String.utf8EncodeChar c
      = [UInt8.ofNat (x + 0xE0), UInt8.ofNat (y + 0x80), UInt8.ofNat (z + 0x80)] := by
  rw [String.utf8EncodeChar, if_neg (by omega), if_neg (by omega), if_pos (by omega)]
  have hx' : c.val.toNat / 4096 % 0x10 = x := by omega
  have hy' : c.val.toNat / 64 % 64 = y := by omega
  have hz' : c.val.toNat % 64 = z := by omega
  rw [hx', hy', hz']

/-- The encoding of a code point that needs four bytes. -/
theorem utf8EncodeChar_four (h : c.val.toNat = ((x * 64 + y) * 64 + z) * 64 + w)
    (hleast : 0x10000 ≤ c.val.toNat) (hx : x < 0x08) (hy : y < 0x40) (hz : z < 0x40)
    (hw : w < 0x40) :
    String.utf8EncodeChar c
      = [UInt8.ofNat (x + 0xF0), UInt8.ofNat (y + 0x80), UInt8.ofNat (z + 0x80),
          UInt8.ofNat (w + 0x80)] := by
  rw [String.utf8EncodeChar, if_neg (by omega), if_neg (by omega), if_neg (by omega)]
  have hx' : c.val.toNat / 262144 % 0x08 = x := by omega
  have hy' : c.val.toNat / 4096 % 64 = y := by omega
  have hz' : c.val.toNat / 64 % 64 = z := by omega
  have hw' : c.val.toNat % 64 = w := by omega
  rw [hx', hy', hz', hw']

end Encoding

/-- What is read as a character is its encoding. -/
theorem utf8EncodeChar_of_leading? {byte : UInt8} {bytes : List UInt8} {c : Char} {count : Nat}
    (h : leading? byte bytes = some (c, count)) :
    String.utf8EncodeChar c ++ bytes.drop count = byte :: bytes := by
  obtain ⟨share, least, hlead, hcontinued, hleast⟩ := exists_of_leading? h
  -- the least code point of each length keeps out the overlong forms
  rcases cases_of_lead hlead with ⟨rfl, rfl, hshare, rfl⟩ | ⟨rfl, rfl, hshare, rfl⟩ |
    ⟨rfl, rfl, hshare, rfl⟩ | ⟨rfl, rfl, hshare, rfl⟩
  · rw [utf8EncodeChar_one (eq_of_continued_zero hcontinued) hshare]
    rfl
  · obtain ⟨x, rest, hx, rfl, hx'⟩ := exists_of_continued_succ hcontinued
    rw [utf8EncodeChar_two (eq_of_continued_zero hx') hleast hshare hx]
    rfl
  · obtain ⟨x, rest, hx, rfl, hx'⟩ := exists_of_continued_succ hcontinued
    obtain ⟨y, rest, hy, rfl, hy'⟩ := exists_of_continued_succ hx'
    rw [utf8EncodeChar_three (eq_of_continued_zero hy') hleast hshare hx hy]
    rfl
  · obtain ⟨x, rest, hx, rfl, hx'⟩ := exists_of_continued_succ hcontinued
    obtain ⟨y, rest, hy, rfl, hy'⟩ := exists_of_continued_succ hx'
    obtain ⟨z, rest, hz, rfl, hz'⟩ := exists_of_continued_succ hy'
    rw [utf8EncodeChar_four (eq_of_continued_zero hz') hleast hshare hx hy hz]
    rfl

/-! ## One reading -/

/-- Where an encoding starts, its character is read. -/
theorem leading?_of_prefix {c : Char} {byte : UInt8} {bytes : List UInt8}
    (h : String.utf8EncodeChar c <+: byte :: bytes) : (leading? byte bytes).isSome = true := by
  obtain ⟨rest, hrest⟩ := h
  obtain ⟨first, others, hencode, hleading⟩ := exists_leading?_utf8EncodeChar c rest
  rw [hencode, List.cons_append] at hrest
  obtain ⟨rfl, rfl⟩ := List.cons.inj hrest
  rw [hleading]
  rfl

/-- Reading on behind the bytes that have been read already. -/
theorem decoded_decodeFrom (skip : Nat) (bytes : List UInt8) :
    Decoded (bytes.drop skip) (decodeFrom skip bytes) := by
  fun_induction decodeFrom skip bytes with
  | case1 skip =>
    rw [List.drop_nil]
    exact .nil
  | case2 skip byte bytes ih => exact ih
  | case3 byte bytes c count hleading ih =>
    rw [List.drop_zero, ← utf8EncodeChar_of_leading? hleading]
    exact .char c ih
  | case4 byte bytes hleading ih =>
    rw [List.drop_zero] at ih ⊢
    refine .stray (fun c hc => ?_) ih
    have hsome := leading?_of_prefix hc
    rw [hleading] at hsome
    cases hsome

/-- Every byte sequence has one reading. -/
theorem decoded_iff {bytes : List UInt8} {cs : List Char} :
    Decoded bytes cs ↔ cs = decode bytes := by
  constructor
  · intro h
    induction h with
    | nil => rfl
    | char c h ih => rw [ih, decode, decode, decodeFrom_utf8EncodeChar]
    | @stray byte bytes cs hbyte h ih =>
      -- what is read there would be an encoding
      have hnone : leading? byte bytes = none := by
        cases hleading : leading? byte bytes with
        | none => rfl
        | some result =>
          exact absurd ⟨_, utf8EncodeChar_of_leading? hleading⟩ (hbyte result.1)
      rw [ih, decode, decode, decodeFrom, hnone]
  · rintro rfl
    exact decoded_decodeFrom 0 bytes

/-! ## Characters of one byte -/

section OneByte

variable {byte : UInt8} {c : Char}

/-- Only the encoding of a character of one byte has that byte in it. -/
theorem eq_of_byte_mem (hc : String.utf8EncodeChar c = [byte]) {d : Char}
    (h : byte ∈ String.utf8EncodeChar d) : d = c := by
  have hbyte : c.val.toNat < 0x80 ∧ byte.toNat = c.val.toNat := by
    unfold String.utf8EncodeChar at hc
    dsimp only at hc
    split_ifs at hc with hlow
    · have hnat := congrArg UInt8.toNat (List.cons.inj hc).1
      rw [toNat_ofNat (by omega)] at hnat
      exact ⟨by omega, hnat.symm⟩
    all_goals simp at hc
  -- the bytes of all longer encodings are at least `0x80`
  have hne {x : Nat} (hlow : 0x80 ≤ x) (hhigh : x < 256) : byte ≠ UInt8.ofNat x := by
    intro heq
    have hnat := congrArg UInt8.toNat heq
    rw [toNat_ofNat hhigh] at hnat
    omega
  unfold String.utf8EncodeChar at h
  dsimp only at h
  split_ifs at h with h1 h2 h3
  · have hnat := congrArg UInt8.toNat (List.mem_singleton.1 h)
    rw [toNat_ofNat (by omega)] at hnat
    apply Char.ext
    apply UInt32.toNat.inj
    omega
  all_goals
    simp only [List.mem_cons, List.not_mem_nil, or_false] at h
    exfalso
  · rcases h with h | h <;> exact hne (by omega) (by omega) h
  · rcases h with h | h | h <;> exact hne (by omega) (by omega) h
  · rcases h with h | h | h | h <;> exact hne (by omega) (by omega) h

/-- A part in front of an element that it does not have ends before that element. -/
theorem prefix_of_prefix_append_cons {α : Type} {a : α} {part xs ys : List α}
    (h : part <+: xs ++ a :: ys) (ha : a ∉ part) : part <+: xs := by
  rcases List.prefix_or_prefix_of_prefix h (List.prefix_append xs (a :: ys)) with hpart | hpart
  · exact hpart
  · obtain ⟨rest, rfl⟩ := hpart
    have hrest : rest <+: a :: ys := (List.prefix_append_right_inj xs).1 h
    cases rest with
    | nil => simp
    | cons b rest =>
      obtain ⟨rfl, -⟩ := List.cons_prefix_cons.1 hrest
      exact absurd (List.mem_append_right _ List.mem_cons_self) ha

/-- A character of one byte cuts a reading in two. -/
theorem Decoded.append_byte (hc : String.utf8EncodeChar c = [byte]) {xs ys : List UInt8}
    {cs ds : List Char} (hxs : Decoded xs cs) (hys : Decoded ys ds) :
    Decoded (xs ++ byte :: ys) (cs ++ c :: ds) := by
  induction hxs with
  | nil =>
    have hcons := Decoded.char c hys
    rwa [hc] at hcons
  | char d h ih =>
    rw [List.append_assoc]
    exact .char d ih
  | @stray first bytes cs hfirst h ih =>
    -- an encoding that starts at `first` now would have to go on with the byte
    refine .stray (fun d hd => ?_) ih
    by_cases hmem : byte ∈ String.utf8EncodeChar d
    · obtain rfl := eq_of_byte_mem hc hmem
      refine hfirst d ?_
      rw [hc] at hd ⊢
      exact List.cons_prefix_cons.2 ⟨(List.cons_prefix_cons.1 hd).1, List.nil_prefix⟩
    · have hwhole : String.utf8EncodeChar d <+: first :: bytes :=
        prefix_of_prefix_append_cons hd hmem
      exact hfirst d hwhole

/-- A character of one byte cuts what bytes are read as in two, whatever comes before it. -/
theorem decode_append_byte (hc : String.utf8EncodeChar c = [byte]) (xs ys : List UInt8) :
    decode (xs ++ byte :: ys) = decode xs ++ c :: decode ys := by
  have hxs : Decoded xs (decode xs) := decoded_iff.2 rfl
  have hys : Decoded ys (decode ys) := decoded_iff.2 rfl
  exact (decoded_iff.1 (hxs.append_byte hc hys)).symm

/-- Behind any bytes a text is read as itself if its first character is of one byte. -/
theorem decode_append_encode_cons (hc : String.utf8EncodeChar c = [byte]) (xs : List UInt8)
    (cs : List Char) : decode (xs ++ encode (c :: cs)) = decode xs ++ c :: cs := by
  have hencode : encode (c :: cs) = byte :: encode cs := by
    rw [encode, List.flatMap_cons, hc]
    rfl
  rw [hencode, decode_append_byte hc, decode_encode]

end OneByte

/-! ## Line feeds -/

/-- The byte of a line feed. -/
def lineFeed : UInt8 := 10

/-- A line feed is encoded as one byte. -/
theorem utf8EncodeChar_lineFeed : String.utf8EncodeChar '\n' = [lineFeed] := by
  decide

/-- The line feeds among the bytes are those of their reading. -/
theorem Decoded.count_eq {bytes : List UInt8} {cs : List Char} (h : Decoded bytes cs) :
    cs.count '\n' = bytes.count lineFeed := by
  induction h with
  | nil => rfl
  | char c h ih =>
    rw [List.count_append, List.count_cons, ih, Nat.add_comm]
    congr 1
    by_cases hc : c = '\n'
    · subst hc
      rw [utf8EncodeChar_lineFeed]
      rfl
    · have hzero : (String.utf8EncodeChar c).count lineFeed = 0 :=
        List.count_eq_zero.2 fun hmem => hc (eq_of_byte_mem utf8EncodeChar_lineFeed hmem)
      rw [hzero]
      simp [hc]
  | @stray byte bytes cs hbyte h ih =>
    have hne : byte ≠ lineFeed := by
      rintro rfl
      apply hbyte '\n'
      rw [utf8EncodeChar_lineFeed]
      exact List.prefix_append [lineFeed] bytes
    have hreplacement : replacement ≠ '\n' := by decide
    rw [List.count_cons_of_ne hne, List.count_cons_of_ne hreplacement, ih]

/-- A line feed cuts what bytes are read as in two, whatever comes before it. -/
theorem decode_append_lineFeed (xs ys : List UInt8) :
    decode (xs ++ lineFeed :: ys) = decode xs ++ '\n' :: decode ys :=
  decode_append_byte utf8EncodeChar_lineFeed xs ys

/-- The line feeds among the bytes are those among the characters. -/
theorem count_decode (bytes : List UInt8) : (decode bytes).count '\n' = bytes.count lineFeed :=
  (decoded_iff.2 rfl).count_eq

end ScalarLang.Utf8
