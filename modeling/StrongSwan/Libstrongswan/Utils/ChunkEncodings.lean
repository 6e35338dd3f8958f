import StrongSwan.Foundations.Bytes

/-!
Contract: the text encodings of `chunk.c`: `chunk_to_hex` and `chunk_from_hex`,
`chunk_to_base64` and `chunk_from_base64`.

Characters are the bytes of the text. `chunk_from_hex` reads its input from the
right through a pointer that it moves before each read; its model reads through
`readAt`, which answers `none` where the pointer would lie outside the input, so
that a result of `some` says that every read stayed inside. `chunk_from_base64`
counts its output length in `outlen`, up by three for each group of four
characters and down by one for each `=` while positive.

Owns: the bit fields of one byte pair and one base64 group; that
`chunk_from_hex` reads only inside its input for every input, and gives back the
bytes of every hex rendering (either case per digit, an optional `0x`, an
optional `:` at every byte boundary, the first byte possibly as one digit);
the length of `chunk_to_base64` and that its output is canonical base64, and
the two round trips between the encoder and the decoder.

Does not own: `chunk_to_base32`, which nothing here uses, the allocation of the
output buffers, and the `int` range of the lengths: `chunk_to_hex` computes
`chunk.len * 2` and `chunk_to_base64` `len * 4 / 3` in an `int`, which leave its
range for chunks of 1 GiB and of more than 512 MiB; the model's lengths are
those of the chunks below.
-/

namespace StrongSwan.Libstrongswan.Utils.ChunkEncodings

open StrongSwan.Foundations.Bytes

/-! ## Bit fields -/

/-- The low half of a byte or-ed with its high half shifted back gives the byte. -/
theorem byte_halves (byte : UInt8) : (byte &&& (0xF : UInt8)) ||| ((byte >>> 4) <<< 4) = byte := by
  apply UInt8.toNat_inj.mp
  have below := byte.toNat_lt
  simp only [UInt8.toNat_or, UInt8.toNat_and, UInt8.toNat_shiftRight, UInt8.toNat_shiftLeft,
    UInt8.toNat_ofNat, Nat.shiftRight_eq_div_pow, Nat.shiftLeft_eq]
  norm_num
  rw [show byte.toNat &&& 15 = byte.toNat % 2 ^ 4 from Nat.and_two_pow_sub_one_eq_mod _ 4,
    Nat.lor_comm, lor_eq_add_of_mod 4] <;> omega

theorem shiftRight_four_and (byte : UInt8) : (byte >>> 4) &&& (0xF : UInt8) = byte >>> 4 := by
  apply UInt8.toNat_inj.mp
  have below := byte.toNat_lt
  simp only [UInt8.toNat_and, UInt8.toNat_shiftRight, UInt8.toNat_ofNat, Nat.shiftRight_eq_div_pow]
  norm_num
  rw [show byte.toNat / 16 &&& 15 = byte.toNat / 16 % 2 ^ 4 from Nat.and_two_pow_sub_one_eq_mod _ 4]
  omega

/-! ## Hex -/

/-- `hexdig_upper`. -/
def hexdigUpper : List UInt8 :=
  ['0', '1', '2', '3', '4', '5', '6', '7', '8', '9', 'A', 'B', 'C', 'D', 'E', 'F'].map Char.toUInt8

/-- `hexdig_lower`. -/
def hexdigLower : List UInt8 :=
  ['0', '1', '2', '3', '4', '5', '6', '7', '8', '9', 'a', 'b', 'c', 'd', 'e', 'f'].map Char.toUInt8

/-- The digit `hexdig[value]` of the table the case selects. -/
def hexdig (uppercase : Bool) (value : UInt8) : UInt8 :=
  (if uppercase then hexdigUpper else hexdigLower).getD value.toNat 0

/-- `chunk_to_hex`: two digits per byte, the high half first. -/
def chunkToHex (chunk : List UInt8) (uppercase : Bool) : List UInt8 :=
  chunk.flatMap fun (byte : UInt8) => [hexdig uppercase ((byte >>> 4) &&& 0xF), hexdig uppercase (byte &&& 0xF)]

/-- `hex2bin`: the value of a digit of either case, `0` for any other character. -/
def hex2bin (hex : UInt8) : UInt8 :=
  if '0'.toUInt8 ≤ hex ∧ hex ≤ '9'.toUInt8 then hex - '0'.toUInt8
  else if 'A'.toUInt8 ≤ hex ∧ hex ≤ 'F'.toUInt8 then hex - 'A'.toUInt8 + 10
  else if 'a'.toUInt8 ≤ hex ∧ hex ≤ 'f'.toUInt8 then hex - 'a'.toUInt8 + 10
  else 0

/-- `*p` for a pointer `p` at `offset` from the start of the input; `none` where
`p` lies outside it. -/
def readAt (text : List UInt8) (offset : Int) : Option UInt8 :=
  if offset < 0 then none else text[offset.toNat]?

/-- The loop of `chunk_from_hex` from `buf[count - 1]` down to `buf[0]`, with
`hex.ptr` at `ptr` and `buf` holding the bytes already filled in to the right.
A `:` where a byte's low digit is due is skipped, once. -/
def fromHexLoop (hex : List UInt8) (odd : Bool) : Nat → Int → List UInt8 → Option (List UInt8)
  | 0, _, buf => some buf
  | i + 1, ptr, buf => do
    let first ← readAt hex (ptr - 1)
    let ptr := if first = ':'.toUInt8 then ptr - 2 else ptr - 1
    let low ← readAt hex ptr
    -- an odd digit count leaves the high half of `buf[0]` at zero
    if i > 0 || !odd then
      let high ← readAt hex (ptr - 1)
      fromHexLoop hex odd i (ptr - 1) ((hex2bin low ||| (hex2bin high <<< 4)) :: buf)
    else
      fromHexLoop hex odd i ptr (hex2bin low :: buf)

/-- The optional `0x` prefix that `chunk_from_hex` skips. -/
def skipHexPrefix (text : List UInt8) : List UInt8 :=
  if text.length > 1 ∧ text.getD 1 0 = 'x'.toUInt8 ∧ text.getD 0 0 = '0'.toUInt8 then text.drop 2
  else text

/-- `chunk_from_hex`: skip an optional `0x`, size the output by the digits that
are not `:`, rounded up to whole bytes, and fill it from the right. -/
def chunkFromHex (text : List UInt8) : Option (List UInt8) :=
  let hex := skipHexPrefix text
  let len := hex.length - hex.count ':'.toUInt8
  let odd := len % 2 == 1
  let len := (if odd then len + 1 else len) / 2
  fromHexLoop hex odd len hex.length []

theorem hex2bin_hexdig (uppercase : Bool) {value : UInt8} (digit : value.toNat < 16) :
    hex2bin (hexdig uppercase value) = value := by
  have tables : ∀ k < 16, hex2bin (hexdigUpper.getD k 0) = k.toUInt8 ∧
      hex2bin (hexdigLower.getD k 0) = k.toUInt8 := by
    decide
  have read := tables value.toNat digit
  rw [show value.toNat.toUInt8 = value from UInt8.ofNat_toNat] at read
  cases uppercase
  · exact read.2
  · exact read.1

/-- Every digit is a character other than `:` and `x`. -/
theorem hexdig_ne (uppercase : Bool) {value : UInt8} (digit : value.toNat < 16) :
    hexdig uppercase value ≠ ':'.toUInt8 ∧ hexdig uppercase value ≠ 'x'.toUInt8 := by
  have tables : ∀ k < 16,
      (hexdigUpper.getD k 0 ≠ ':'.toUInt8 ∧ hexdigUpper.getD k 0 ≠ 'x'.toUInt8) ∧
        (hexdigLower.getD k 0 ≠ ':'.toUInt8 ∧ hexdigLower.getD k 0 ≠ 'x'.toUInt8) := by
    decide
  cases uppercase
  · exact (tables value.toNat digit).2
  · exact (tables value.toNat digit).1

theorem toNat_shiftRight_four (byte : UInt8) : (byte >>> 4).toNat < 16 := by
  have below := byte.toNat_lt
  simp only [UInt8.toNat_shiftRight, UInt8.toNat_ofNat, Nat.shiftRight_eq_div_pow]
  norm_num
  omega

theorem toNat_and_fifteen (byte : UInt8) : (byte &&& (0xF : UInt8)).toNat < 16 := by
  rw [UInt8.toNat_and, show (0xF : UInt8).toNat = 2 ^ 4 - 1 from rfl, Nat.and_two_pow_sub_one_eq_mod]
  exact Nat.mod_lt _ (by decide)

/-! ### Hex renderings -/

/-- `digit` is one of the two characters `chunk_to_hex` writes for `value`. -/
def IsHexDigit (value digit : UInt8) : Prop := digit = hexdig true value ∨ digit = hexdig false value

/-- At most one `:`. -/
def IsSeparator (sep : List UInt8) : Prop := sep = [] ∨ sep = [':'.toUInt8]

/-- `text` writes `byte` as two digits, the high half first, with an optional
separator after them. -/
def PairRendering (byte : UInt8) (text : List UInt8) : Prop :=
  ∃ high low sep, IsHexDigit (byte >>> 4) high ∧ IsHexDigit (byte &&& 0xF) low ∧ IsSeparator sep ∧
    text = [high, low] ++ sep

/-- The first byte is written as a pair, or by its low digit alone when its high
half is zero. -/
def FirstRendering (byte : UInt8) (text : List UInt8) : Prop :=
  PairRendering byte text ∨
    byte >>> 4 = 0 ∧ ∃ low sep, IsHexDigit (byte &&& 0xF) low ∧ IsSeparator sep ∧ text = [low] ++ sep

/-- A hex rendering of `chunk`: an optional `0x`, an optional separator, and the
bytes in order, each followed by an optional separator. -/
def HexRendering : List UInt8 → List UInt8 → Prop
  | [], text => ∃ pre sep, (pre = [] ∨ pre = ['0'.toUInt8, 'x'.toUInt8]) ∧ IsSeparator sep ∧
      text = pre ++ sep
  | first :: rest, text => ∃ pre sep firstText parts,
      (pre = [] ∨ pre = ['0'.toUInt8, 'x'.toUInt8]) ∧ IsSeparator sep ∧
      FirstRendering first firstText ∧ List.Forall₂ PairRendering rest parts ∧
      text = pre ++ sep ++ firstText ++ parts.flatten

theorem hex2bin_of_isHexDigit {value digit : UInt8} (valid : value.toNat < 16)
    (isDigit : IsHexDigit value digit) : hex2bin digit = value := by
  rcases isDigit with rfl | rfl
  · exact hex2bin_hexdig true valid
  · exact hex2bin_hexdig false valid

theorem ne_of_isHexDigit {value digit : UInt8} (valid : value.toNat < 16)
    (isDigit : IsHexDigit value digit) : digit ≠ ':'.toUInt8 ∧ digit ≠ 'x'.toUInt8 := by
  rcases isDigit with rfl | rfl
  · exact hexdig_ne true valid
  · exact hexdig_ne false valid

theorem readAt_middle (front middle back : List UInt8) (k : Nat) (within : k < middle.length) :
    readAt (front ++ middle ++ back) ((front.length + k : Nat) : Int) = middle[k]? := by
  rw [readAt, if_neg (by omega), Int.toNat_natCast, List.append_assoc,
    List.getElem?_append_right (by omega), Nat.add_sub_cancel_left, List.getElem?_append_left within]

/-- One pass of the loop reads a pair and its separator from their end. -/
theorem fromHexLoop_pair {byte : UInt8} {pair front back : List UInt8} (odd : Bool) (m : Nat)
    (buf : List UInt8) (rendering : PairRendering byte pair) (full : 0 < m ∨ odd = false) :
    fromHexLoop (front ++ pair ++ back) odd (m + 1) ((front.length + pair.length : Nat) : Int) buf
      = fromHexLoop (front ++ pair ++ back) odd m (front.length : Int) (byte :: buf) := by
  obtain ⟨high, low, sep, isHigh, isLow, isSep, rfl⟩ := rendering
  have highValid := toNat_shiftRight_four byte
  have lowValid := toNat_and_fifteen byte
  have byteOf : hex2bin low ||| (hex2bin high <<< 4) = byte := by
    rw [hex2bin_of_isHexDigit lowValid isLow, hex2bin_of_isHexDigit highValid isHigh, byte_halves]
  have fullPass : (decide (m > 0) || !odd) = true := by
    rcases full with positive | even
    · simp [positive]
    · simp [even]
  have readHigh : readAt (front ++ ([high, low] ++ sep) ++ back) (front.length : Int) = some high := by
    simpa using readAt_middle front ([high, low] ++ sep) back 0 (by simp)
  have readLow := readAt_middle front ([high, low] ++ sep) back 1 (by simp)
  have highNext : ((front.length + 1 : Nat) : Int) - 1 = (front.length : Int) := by omega
  rcases isSep with rfl | rfl
  · have lowFirst : ((front.length + ([high, low] ++ []).length : Nat) : Int) - 1
        = ((front.length + 1 : Nat) : Int) := by simp; omega
    have getLow : ([high, low] ++ [])[1]? = some low := rfl
    rw [fromHexLoop, lowFirst, readLow, getLow]
    simp only [Option.bind_eq_bind, Option.bind_some, if_neg (ne_of_isHexDigit lowValid isLow).1,
      fullPass, if_true, readLow, getLow, highNext, readHigh, byteOf]
  · have colonFirst : ((front.length + ([high, low] ++ [':'.toUInt8]).length : Nat) : Int) - 1
        = ((front.length + 2 : Nat) : Int) := by simp; omega
    have getColon : ([high, low] ++ [':'.toUInt8])[2]? = some ':'.toUInt8 := rfl
    have getLow : ([high, low] ++ [':'.toUInt8])[1]? = some low := rfl
    have lowNext : ((front.length + ([high, low] ++ [':'.toUInt8]).length : Nat) : Int) - 2
        = ((front.length + 1 : Nat) : Int) := by simp; omega
    have readColon := readAt_middle front ([high, low] ++ [':'.toUInt8]) back 2 (by simp)
    rw [fromHexLoop, colonFirst, readColon, getColon]
    simp only [Option.bind_eq_bind, Option.bind_some, if_true, lowNext, readLow, getLow, fullPass,
      highNext, readHigh, byteOf]

/-- The passes over a run of rendered pairs, from its end, leave the pointer at
its start with the bytes filled in. -/
theorem fromHexLoop_pairs (odd : Bool) {bytes : List UInt8} {parts : List (List UInt8)}
    (rendered : List.Forall₂ PairRendering bytes parts) :
    ∀ (front back : List UInt8) (m : Nat) (buf : List UInt8), (0 < m ∨ odd = false) →
      fromHexLoop (front ++ parts.flatten ++ back) odd (m + bytes.length)
          ((front.length + parts.flatten.length : Nat) : Int) buf
        = fromHexLoop (front ++ parts.flatten ++ back) odd m (front.length : Int) (bytes ++ buf) := by
  induction rendered with
  | nil =>
    intro front back m buf _
    simp
  | @cons byte pair bytes parts rendering _ ih =>
    intro front back m buf full
    -- the later pairs come first, with this pair added to what lies before them
    have later := ih (front ++ pair) back (m + 1) buf (.inl (Nat.succ_pos m))
    have regroup : front ++ (pair :: parts).flatten ++ back = front ++ pair ++ parts.flatten ++ back := by
      simp
    have reassociate : front ++ pair ++ parts.flatten ++ back = front ++ pair ++ (parts.flatten ++ back) := by
      simp
    have count : m + (byte :: bytes).length = m + 1 + bytes.length := by simp; omega
    have position : front.length + (pair :: parts).flatten.length
        = (front ++ pair).length + parts.flatten.length := by simp; omega
    rw [regroup, count, position, later, reassociate, List.length_append,
      fromHexLoop_pair odd m (bytes ++ buf) rendering full]
    rfl

theorem and_fifteen_of_high_zero {byte : UInt8} (high : byte >>> 4 = 0) : byte &&& (0xF : UInt8) = byte := by
  have halves := byte_halves byte
  rwa [high, UInt8.zero_shiftLeft, UInt8.or_zero] at halves

/-- The last pass of an odd digit count reads the first byte's one digit. -/
theorem fromHexLoop_short {byte low : UInt8} {sep : List UInt8} (front back buf : List UInt8)
    (high : byte >>> 4 = 0) (isLow : IsHexDigit (byte &&& 0xF) low) (isSep : IsSeparator sep) :
    fromHexLoop (front ++ ([low] ++ sep) ++ back) true 1
        ((front.length + ([low] ++ sep).length : Nat) : Int) buf = some (byte :: buf) := by
  have lowValid := toNat_and_fifteen byte
  have readLow : readAt (front ++ ([low] ++ sep) ++ back) (front.length : Int) = some low := by
    simpa using readAt_middle front ([low] ++ sep) back 0 (by simp)
  have lastPass : (decide (0 > 0) || !true) = false := rfl
  have value : hex2bin low = byte := by
    rw [hex2bin_of_isHexDigit lowValid isLow, and_fifteen_of_high_zero high]
  rcases isSep with rfl | rfl
  · have lowFirst : ((front.length + ([low] ++ []).length : Nat) : Int) - 1 = (front.length : Int) := by
      simp
    rw [fromHexLoop, lowFirst, readLow]
    simp only [Option.bind_eq_bind, Option.bind_some, if_neg (ne_of_isHexDigit lowValid isLow).1,
      lastPass, readLow, value]
    rfl
  · have colonFirst : ((front.length + ([low] ++ [':'.toUInt8]).length : Nat) : Int) - 1
        = ((front.length + 1 : Nat) : Int) := by simp; omega
    have readColon := readAt_middle front ([low] ++ [':'.toUInt8]) back 1 (by simp)
    have getColon : ([low] ++ [':'.toUInt8])[1]? = some ':'.toUInt8 := rfl
    have lowNext : ((front.length + ([low] ++ [':'.toUInt8]).length : Nat) : Int) - 2
        = (front.length : Int) := by simp
    rw [fromHexLoop, colonFirst, readColon, getColon]
    simp only [Option.bind_eq_bind, Option.bind_some, if_true, lowNext, readLow, lastPass, value]
    rfl

/-! ### Counting digits -/

theorem count_separator {sep : List UInt8} (isSep : IsSeparator sep) :
    sep.count ':'.toUInt8 = sep.length := by
  rcases isSep with rfl | rfl <;> rfl

theorem count_pair {byte : UInt8} {pair : List UInt8} (rendering : PairRendering byte pair) :
    pair.length = 2 + pair.count ':'.toUInt8 := by
  obtain ⟨high, low, sep, isHigh, isLow, isSep, rfl⟩ := rendering
  have highColon := (ne_of_isHexDigit (toNat_shiftRight_four byte) isHigh).1
  have lowColon := (ne_of_isHexDigit (toNat_and_fifteen byte) isLow).1
  simp [highColon, lowColon, count_separator isSep]
  omega

theorem count_pairs {bytes : List UInt8} {parts : List (List UInt8)}
    (rendered : List.Forall₂ PairRendering bytes parts) :
    parts.flatten.length = 2 * bytes.length + parts.flatten.count ':'.toUInt8 := by
  induction rendered with
  | nil => rfl
  | cons rendering _ ih =>
    rw [List.flatten_cons, List.length_append, List.count_append, count_pair rendering, ih,
      List.length_cons]
    ring

/-- No rendering holds an `x`, so only a real `0x` is skipped. -/
theorem x_not_mem_pair {byte : UInt8} {pair : List UInt8} (rendering : PairRendering byte pair) :
    'x'.toUInt8 ∉ pair := by
  obtain ⟨high, low, sep, isHigh, isLow, isSep, rfl⟩ := rendering
  have highX := (ne_of_isHexDigit (toNat_shiftRight_four byte) isHigh).2
  have lowX := (ne_of_isHexDigit (toNat_and_fifteen byte) isLow).2
  rcases isSep with rfl | rfl
  · simp [Ne.symm highX, Ne.symm lowX]
  · simp [Ne.symm highX, Ne.symm lowX]
    decide

theorem x_not_mem_separator {sep : List UInt8} (isSep : IsSeparator sep) : 'x'.toUInt8 ∉ sep := by
  rcases isSep with rfl | rfl
  · simp
  · decide

theorem x_not_mem_first {byte : UInt8} {text : List UInt8} (rendering : FirstRendering byte text) :
    'x'.toUInt8 ∉ text := by
  rcases rendering with pair | ⟨-, low, sep, isLow, isSep, rfl⟩
  · exact x_not_mem_pair pair
  · have lowX := (ne_of_isHexDigit (toNat_and_fifteen byte) isLow).2
    simp only [List.mem_append, List.mem_singleton, not_or]
    exact ⟨Ne.symm lowX, x_not_mem_separator isSep⟩

theorem x_not_mem_pairs {bytes : List UInt8} {parts : List (List UInt8)}
    (rendered : List.Forall₂ PairRendering bytes parts) : 'x'.toUInt8 ∉ parts.flatten := by
  induction rendered with
  | nil => simp
  | cons rendering _ ih =>
    rw [List.flatten_cons, List.mem_append, not_or]
    exact ⟨x_not_mem_pair rendering, ih⟩

theorem skipHexPrefix_of_prefix {pre body : List UInt8}
    (isPre : pre = [] ∨ pre = ['0'.toUInt8, 'x'.toUInt8]) (noX : 'x'.toUInt8 ∉ body) :
    skipHexPrefix (pre ++ body) = body := by
  rcases isPre with rfl | rfl
  · rw [List.nil_append, skipHexPrefix, if_neg]
    rintro ⟨long, isX, -⟩
    apply noX
    rw [← isX, List.getD_eq_getElem _ _ long]
    exact List.getElem_mem _
  · rw [skipHexPrefix, if_pos (by simp)]
    rfl

/-- `chunk_from_hex` gives back the bytes of every hex rendering. -/
theorem chunkFromHex_of_hexRendering {chunk text : List UInt8} (rendering : HexRendering chunk text) :
    chunkFromHex text = some chunk := by
  cases chunk with
  | nil =>
    obtain ⟨pre, sep, isPre, isSep, rfl⟩ := rendering
    have none : sep.length - sep.count ':'.toUInt8 = 0 := by rw [count_separator isSep]; simp
    simp only [chunkFromHex, skipHexPrefix_of_prefix isPre (x_not_mem_separator isSep), none]
    rfl
  | cons first rest =>
    obtain ⟨pre, sep, firstText, parts, isPre, isSep, isFirst, isRest, rfl⟩ := rendering
    have noX : 'x'.toUInt8 ∉ sep ++ firstText ++ parts.flatten := by
      simp only [List.mem_append, not_or]
      exact ⟨⟨x_not_mem_separator isSep, x_not_mem_first isFirst⟩, x_not_mem_pairs isRest⟩
    have skipped : skipHexPrefix (pre ++ sep ++ firstText ++ parts.flatten)
        = sep ++ firstText ++ parts.flatten := by
      rw [List.append_assoc, List.append_assoc, ← List.append_assoc sep]
      exact skipHexPrefix_of_prefix isPre noX
    have sepCount := count_separator isSep
    have restCount := count_pairs isRest
    have restLength := isRest.length_eq
    have atEnd : (sep ++ firstText ++ parts.flatten).length
        = (sep ++ firstText).length + parts.flatten.length := List.length_append
    have closed : sep ++ firstText ++ parts.flatten = sep ++ firstText ++ parts.flatten ++ [] :=
      (List.append_nil _).symm
    have reassociate : sep ++ firstText ++ parts.flatten ++ []
        = sep ++ firstText ++ (parts.flatten ++ []) := by simp
    -- the first byte's digits decide whether the count is odd
    rcases isFirst with pair | ⟨high, low, firstSep, isLow, isFirstSep, rfl⟩
    · have firstCount := count_pair pair
      have digits : (sep ++ firstText ++ parts.flatten).length
          - (sep ++ firstText ++ parts.flatten).count ':'.toUInt8 = 2 * (rest.length + 1) := by
        simp only [List.length_append, List.count_append]
        omega
      have even : (2 * (rest.length + 1) % 2 == 1) = false := by simp
      have bytes : 2 * (rest.length + 1) / 2 = 1 + rest.length := by omega
      have toFirst := fromHexLoop_pairs false isRest (sep ++ firstText) [] 1 [] (.inl one_pos)
      simp only [chunkFromHex, skipped, digits, even, Bool.false_eq_true, if_false, bytes]
      rw [atEnd, closed, toFirst, reassociate, List.length_append,
        fromHexLoop_pair false 0 (rest ++ []) pair (.inr rfl), fromHexLoop, List.append_nil]
    · have lowColon := (ne_of_isHexDigit (toNat_and_fifteen first) isLow).1
      have firstCount : ([low] ++ firstSep).length = 1 + ([low] ++ firstSep).count ':'.toUInt8 := by
        simp [lowColon, count_separator isFirstSep]
        omega
      have digits : (sep ++ ([low] ++ firstSep) ++ parts.flatten).length
          - (sep ++ ([low] ++ firstSep) ++ parts.flatten).count ':'.toUInt8
            = 2 * rest.length + 1 := by
        simp only [List.length_append, List.count_append] at firstCount ⊢
        omega
      have odd : ((2 * rest.length + 1) % 2 == 1) = true := by simp
      have bytes : (2 * rest.length + 1 + 1) / 2 = 1 + rest.length := by omega
      have toFirst := fromHexLoop_pairs true isRest (sep ++ ([low] ++ firstSep)) [] 1 [] (.inl one_pos)
      simp only [chunkFromHex, skipped, digits, odd, if_true, bytes]
      rw [atEnd, closed, toFirst, reassociate, List.length_append,
        fromHexLoop_short sep (parts.flatten ++ []) (rest ++ []) high isLow isFirstSep, List.append_nil]

/-- The pair `chunk_to_hex` writes for one byte. -/
theorem pairRendering_hexdig (uppercase : Bool) (byte : UInt8) :
    PairRendering byte [hexdig uppercase ((byte >>> 4) &&& 0xF), hexdig uppercase (byte &&& 0xF)] := by
  rw [shiftRight_four_and]
  refine ⟨_, _, [], ?_, ?_, .inl rfl, rfl⟩
  all_goals cases uppercase
  all_goals first | exact .inl rfl | exact .inr rfl

theorem hexRendering_chunkToHex (chunk : List UInt8) (uppercase : Bool) :
    HexRendering chunk (chunkToHex chunk uppercase) := by
  cases chunk with
  | nil => exact ⟨[], [], .inl rfl, .inl rfl, rfl⟩
  | cons first rest =>
    refine ⟨[], [], _, rest.map fun (byte : UInt8) =>
        [hexdig uppercase ((byte >>> 4) &&& 0xF), hexdig uppercase (byte &&& 0xF)],
      .inl rfl, .inl rfl, .inl (pairRendering_hexdig uppercase first), ?_, ?_⟩
    · exact List.forall₂_map_right_iff.mpr
        (List.forall₂_same.mpr fun byte _ => pairRendering_hexdig uppercase byte)
    · rw [chunkToHex, List.flatMap_cons, List.flatMap_def]
      rfl

/-! ### Every read stays inside the input -/

/-- The characters other than `:` among the first `count` of `hex`: the digits
the passes of the loop can still read from `count` down. -/
def digitsBefore (hex : List UInt8) (count : Nat) : Nat := count - (hex.take count).count ':'.toUInt8

theorem digitsBefore_le (hex : List UInt8) (count : Nat) : digitsBefore hex count ≤ count :=
  Nat.sub_le _ _

theorem digitsBefore_succ {hex : List UInt8} {count : Nat} (within : count < hex.length) :
    digitsBefore hex (count + 1)
      = digitsBefore hex count + if hex[count] = ':'.toUInt8 then 0 else 1 := by
  have counted : (hex.take count).count ':'.toUInt8 ≤ count :=
    List.count_le_length.trans (List.length_take_le _ _)
  rw [digitsBefore, digitsBefore, List.take_add_one, List.getElem?_eq_getElem within,
    Option.toList_some, List.count_append, List.count_singleton]
  by_cases colon : hex[count] = ':'.toUInt8
  · simp only [colon, beq_self_eq_true, if_true]
    omega
  · simp only [colon, if_false, beq_iff_eq]
    omega

theorem readAt_of_lt {hex : List UInt8} {offset : Nat} (within : offset < hex.length) :
    readAt hex (offset : Int) = some hex[offset] := by
  rw [readAt, if_neg (by omega), Int.toNat_natCast, List.getElem?_eq_getElem within]

/-- While at least `2 k` digits, less one for an odd count, lie before the
pointer, the last `k` passes read only inside the input: a skipped `:` is one
of the characters before the pointer, so the reads never outrun them. -/
theorem fromHexLoop_isSome (hex : List UInt8) (odd : Bool) :
    ∀ (k offset : Nat) (buf : List UInt8), offset ≤ hex.length →
      2 * k ≤ digitsBefore hex offset + (if odd then 1 else 0) →
      (fromHexLoop hex odd k (offset : Int) buf).isSome := by
  intro k
  induction k with
  | zero => intro offset buf _ _; rfl
  | succ k ih =>
    intro offset buf inside enough
    have oddBit : (if odd then 1 else 0) ≤ 1 := by split <;> omega
    have atMost := digitsBefore_le hex offset
    obtain ⟨q, rfl⟩ : ∃ q, offset = q + 1 := ⟨offset - 1, by omega⟩
    have next := digitsBefore_succ (show q < hex.length by omega)
    have firstAt : ((q + 1 : Nat) : Int) - 1 = (q : Int) := by omega
    rw [fromHexLoop, firstAt, readAt_of_lt (show q < hex.length by omega)]
    simp only [Option.bind_eq_bind, Option.bind_some]
    by_cases colon : hex[q] = ':'.toUInt8
    · -- the `:` is skipped; the low digit lies one further left
      rw [if_pos colon] at next ⊢
      obtain ⟨r, rfl⟩ : ∃ r, q = r + 1 := ⟨q - 1, by have := digitsBefore_le hex q; omega⟩
      have lowAt : ((r + 1 + 1 : Nat) : Int) - 2 = (r : Int) := by omega
      have lowNext := digitsBefore_succ (show r < hex.length by omega)
      rw [lowAt, readAt_of_lt (show r < hex.length by omega)]
      simp only [Option.bind_some]
      split
      case isTrue full =>
        have wide : 2 ≤ digitsBefore hex (r + 1) := by
          simp only [Bool.or_eq_true, decide_eq_true_eq, Bool.not_eq_true'] at full
          rcases full with positive | even
          · omega
          · simp only [even, Bool.false_eq_true, if_false] at enough; omega
        obtain ⟨t, rfl⟩ : ∃ t, r = t + 1 := ⟨r - 1, by
          have := digitsBefore_le hex r
          split at lowNext <;> omega⟩
        have highNext := digitsBefore_succ (show t < hex.length by omega)
        have highAt : ((t + 1 : Nat) : Int) - 1 = (t : Int) := by omega
        rw [highAt, readAt_of_lt (show t < hex.length by omega)]
        simp only [Option.bind_some]
        apply ih t _ (by omega)
        split at lowNext <;> split at highNext <;> omega
      case isFalse last =>
        have noneLeft : k = 0 := by
          simp only [Bool.or_eq_true, decide_eq_true_eq, not_or] at last
          omega
        subst noneLeft
        rfl
    · -- the low digit is the character just read
      rw [if_neg colon] at next ⊢
      rw [readAt_of_lt (show q < hex.length by omega)]
      simp only [Option.bind_some]
      split
      case isTrue full =>
        have wide : 1 ≤ digitsBefore hex q := by
          simp only [Bool.or_eq_true, decide_eq_true_eq, Bool.not_eq_true'] at full
          rcases full with positive | even
          · omega
          · simp only [even, Bool.false_eq_true, if_false] at enough; omega
        obtain ⟨r, rfl⟩ : ∃ r, q = r + 1 := ⟨q - 1, by have := digitsBefore_le hex q; omega⟩
        have highNext := digitsBefore_succ (show r < hex.length by omega)
        have highAt : ((r + 1 : Nat) : Int) - 1 = (r : Int) := by omega
        rw [highAt, readAt_of_lt (show r < hex.length by omega)]
        simp only [Option.bind_some]
        apply ih r _ (by omega)
        split at highNext <;> omega
      case isFalse last =>
        have noneLeft : k = 0 := by
          simp only [Bool.or_eq_true, decide_eq_true_eq, not_or] at last
          omega
        subst noneLeft
        rfl

/-- `chunk_from_hex` reads only inside its input, whatever the input. -/
theorem chunkFromHex_isSome (text : List UInt8) : (chunkFromHex text).isSome := by
  simp only [chunkFromHex]
  apply fromHexLoop_isSome _ _ _ _ _ (le_refl _)
  rw [digitsBefore, List.take_length]
  split
  case isTrue odd => rw [beq_iff_eq] at odd; omega
  case isFalse even => rw [beq_iff_eq] at even; omega

/-- `chunk_from_hex` undoes `chunk_to_hex` in both cases, reads every hex
rendering of a chunk back as that chunk, and reads only inside its input. -/
theorem chunkFromHex_chunkToHex_renderings :
    (∀ chunk uppercase, chunkFromHex (chunkToHex chunk uppercase) = some chunk) ∧
      (∀ chunk text, HexRendering chunk text → chunkFromHex text = some chunk) ∧
      (∀ text, (chunkFromHex text).isSome) :=
  ⟨fun chunk uppercase => chunkFromHex_of_hexRendering (hexRendering_chunkToHex chunk uppercase),
    fun _ _ rendering => chunkFromHex_of_hexRendering rendering, chunkFromHex_isSome⟩

/-! ## Base64 -/

/-- `b64digits`. -/
def b64digits : List UInt8 :=
  ['A', 'B', 'C', 'D', 'E', 'F', 'G', 'H', 'I', 'J', 'K', 'L', 'M', 'N', 'O', 'P', 'Q', 'R', 'S',
    'T', 'U', 'V', 'W', 'X', 'Y', 'Z', 'a', 'b', 'c', 'd', 'e', 'f', 'g', 'h', 'i', 'j', 'k', 'l',
    'm', 'n', 'o', 'p', 'q', 'r', 's', 't', 'u', 'v', 'w', 'x', 'y', 'z', '0', '1', '2', '3', '4',
    '5', '6', '7', '8', '9', '+', '/'].map Char.toUInt8

/-- `b64digits[value]`. -/
def b64digit (value : UInt8) : UInt8 := b64digits.getD value.toNat 0

/-- `chunk_to_base64`: three bytes into four digits. The loop breaks out with
`==` where one byte is left and with `=` where two are. -/
def chunkToBase64 : List UInt8 → List UInt8
  | [] => []
  | [a] => [b64digit (a >>> 2), b64digit ((a &&& 0x03) <<< 4), '='.toUInt8, '='.toUInt8]
  | [a, b] =>
    [b64digit (a >>> 2), b64digit (((a &&& 0x03) <<< 4) ||| (b >>> 4)),
      b64digit ((b &&& 0x0F) <<< 2), '='.toUInt8]
  | a :: b :: c :: rest =>
    [b64digit (a >>> 2), b64digit (((a &&& 0x03) <<< 4) ||| (b >>> 4)),
      b64digit (((b &&& 0x0F) <<< 2) ||| (c >>> 6)), b64digit (c &&& 0x3F)] ++ chunkToBase64 rest

/-- `b642bin`: the value of a digit of either alphabet, `0` for `=` and `-1`
for any other character. -/
def b642bin (b64 : UInt8) : Int :=
  if 'A'.toUInt8 ≤ b64 ∧ b64 ≤ 'Z'.toUInt8 then (b64.toNat : Int) - 'A'.toNat
  else if 'a'.toUInt8 ≤ b64 ∧ b64 ≤ 'z'.toUInt8 then
    ('Z'.toNat - 'A'.toNat + 1 : Int) + b64.toNat - 'a'.toNat
  else if '0'.toUInt8 ≤ b64 ∧ b64 ≤ '9'.toUInt8 then
    ('Z'.toNat - 'A'.toNat + 1 : Int) + ('z'.toNat - 'a'.toNat + 1 : Int) + b64.toNat - '0'.toNat
  else if b64 = '+'.toUInt8 ∨ b64 = '-'.toUInt8 then 62
  else if b64 = '/'.toUInt8 ∨ b64 = '_'.toUInt8 then 63
  else if b64 = '='.toUInt8 then 0
  else -1

/-- The inner loop of `chunk_from_base64` on `outlen`: one less for each `=`
while positive. -/
def countPadding : Nat → List UInt8 → Nat
  | outlen, [] => outlen
  | outlen, c :: rest => countPadding (if c = '='.toUInt8 ∧ outlen > 0 then outlen - 1 else outlen) rest

/-- The three bytes `chunk_from_base64` writes from the four values of a group. -/
def groupBytes (b0 b1 b2 b3 : UInt8) : List UInt8 :=
  [(b0 <<< 2) ||| (b1 >>> 4), (b1 <<< 4) ||| (b2 >>> 2), (b2 <<< 6) ||| b3]

/-- The outer loop of `chunk_from_base64` over `groups` groups of four
characters, each value stored as the `u_char` of `byte[j]`: the bytes written
and `outlen`. -/
def fromBase64Loop : Nat → List UInt8 → Nat → List UInt8 × Nat
  | 0, _, outlen => ([], outlen)
  | groups + 1, base64, outlen =>
    let group := base64.take 4
    let byte (j : Nat) : UInt8 := UInt8.ofInt (b642bin (group.getD j 0))
    let rest := fromBase64Loop groups (base64.drop 4) (countPadding (outlen + 3) group)
    (groupBytes (byte 0) (byte 1) (byte 2) (byte 3) ++ rest.1, rest.2)

/-- `chunk_from_base64`: `base64.len / 4` groups, of which the first `outlen`
bytes are returned. -/
def chunkFromBase64 (base64 : List UInt8) : List UInt8 :=
  let result := fromBase64Loop (base64.length / 4) base64 0
  result.1.take result.2

/-- Canonical base64: groups of four digits of `b64digits`, where only the last
group may end in `==` after a digit whose low four bits are clear, or in `=`
after a digit whose low two bits are clear. -/
inductive Canonical : List UInt8 → Prop
  | nil : Canonical []
  | one {v0 v1 : UInt8} : v0.toNat < 64 → v1.toNat < 64 → v1.toNat % 16 = 0 →
      Canonical [b64digit v0, b64digit v1, '='.toUInt8, '='.toUInt8]
  | two {v0 v1 v2 : UInt8} : v0.toNat < 64 → v1.toNat < 64 → v2.toNat < 64 → v2.toNat % 4 = 0 →
      Canonical [b64digit v0, b64digit v1, b64digit v2, '='.toUInt8]
  | group {v0 v1 v2 v3 : UInt8} {rest : List UInt8} : v0.toNat < 64 → v1.toNat < 64 →
      v2.toNat < 64 → v3.toNat < 64 → Canonical rest →
      Canonical ([b64digit v0, b64digit v1, b64digit v2, b64digit v3] ++ rest)

/-! ### Bit fields of a group -/

section Encoding

variable (a b c : UInt8)

theorem toNat_field0 : (a >>> 2).toNat = a.toNat / 4 := by
  simp only [UInt8.toNat_shiftRight, UInt8.toNat_ofNat, Nat.shiftRight_eq_div_pow]

theorem toNat_tail1 : ((a &&& 0x03) <<< 4).toNat = a.toNat % 4 * 16 := by
  have below := a.toNat_lt
  simp only [UInt8.toNat_shiftLeft, UInt8.toNat_and, UInt8.toNat_ofNat, Nat.shiftLeft_eq]
  norm_num
  rw [show a.toNat &&& 3 = a.toNat % 2 ^ 2 from Nat.and_two_pow_sub_one_eq_mod _ 2]
  omega

theorem toNat_field1 : (((a &&& 0x03) <<< 4) ||| (b >>> 4)).toNat = a.toNat % 4 * 16 + b.toNat / 16 := by
  have below := b.toNat_lt
  rw [UInt8.toNat_or, toNat_tail1]
  simp only [UInt8.toNat_shiftRight, UInt8.toNat_ofNat, Nat.shiftRight_eq_div_pow]
  norm_num
  rw [lor_eq_add_of_mod 4] <;> omega

theorem toNat_tail2 : ((b &&& 0x0F) <<< 2).toNat = b.toNat % 16 * 4 := by
  have below := b.toNat_lt
  simp only [UInt8.toNat_shiftLeft, UInt8.toNat_and, UInt8.toNat_ofNat, Nat.shiftLeft_eq]
  norm_num
  rw [show b.toNat &&& 15 = b.toNat % 2 ^ 4 from Nat.and_two_pow_sub_one_eq_mod _ 4]
  omega

theorem toNat_field2 : (((b &&& 0x0F) <<< 2) ||| (c >>> 6)).toNat = b.toNat % 16 * 4 + c.toNat / 64 := by
  have below := c.toNat_lt
  rw [UInt8.toNat_or, toNat_tail2]
  simp only [UInt8.toNat_shiftRight, UInt8.toNat_ofNat, Nat.shiftRight_eq_div_pow]
  norm_num
  rw [lor_eq_add_of_mod 2] <;> omega

theorem toNat_field3 : (c &&& 0x3F).toNat = c.toNat % 64 := by
  rw [UInt8.toNat_and, show (0x3F : UInt8).toNat = 2 ^ 6 - 1 from rfl, Nat.and_two_pow_sub_one_eq_mod]

end Encoding

section Decoding

variable (x : UInt8) {y : UInt8} (digit : y.toNat < 64)
include digit

theorem toNat_byte0 : ((x <<< 2) ||| (y >>> 4)).toNat = x.toNat * 4 % 256 + y.toNat / 16 := by
  simp only [UInt8.toNat_or, UInt8.toNat_shiftLeft, UInt8.toNat_shiftRight, UInt8.toNat_ofNat,
    Nat.shiftLeft_eq, Nat.shiftRight_eq_div_pow]
  norm_num
  rw [lor_eq_add_of_mod 2] <;> omega

theorem toNat_byte1 : ((x <<< 4) ||| (y >>> 2)).toNat = x.toNat * 16 % 256 + y.toNat / 4 := by
  simp only [UInt8.toNat_or, UInt8.toNat_shiftLeft, UInt8.toNat_shiftRight, UInt8.toNat_ofNat,
    Nat.shiftLeft_eq, Nat.shiftRight_eq_div_pow]
  norm_num
  rw [lor_eq_add_of_mod 4] <;> omega

theorem toNat_byte2 : ((x <<< 6) ||| y).toNat = x.toNat * 64 % 256 + y.toNat := by
  simp only [UInt8.toNat_or, UInt8.toNat_shiftLeft, UInt8.toNat_ofNat, Nat.shiftLeft_eq]
  norm_num
  rw [lor_eq_add_of_mod 6] <;> omega

end Decoding

/-! ### Groups -/

/-- The 64 digits read back as their values, and none of them is `=`. -/
theorem b642bin_b64digit {value : UInt8} (digit : value.toNat < 64) :
    UInt8.ofInt (b642bin (b64digit value)) = value ∧ b64digit value ≠ '='.toUInt8 := by
  have table : ∀ k < 64, UInt8.ofInt (b642bin (b64digits.getD k 0)) = k.toUInt8 ∧
      b64digits.getD k 0 ≠ '='.toUInt8 := by
    decide
  have read := table value.toNat digit
  rwa [show value.toNat.toUInt8 = value from UInt8.ofNat_toNat] at read

theorem b642bin_pad : UInt8.ofInt (b642bin '='.toUInt8) = 0 := by decide

/-- A group of four digits leaves `outlen` at three more, `==` at one more, `=`
at two more. -/
theorem countPadding_digits {d0 d1 d2 d3 : UInt8} (outlen : Nat) (n0 : d0 ≠ '='.toUInt8)
    (n1 : d1 ≠ '='.toUInt8) (n2 : d2 ≠ '='.toUInt8) (n3 : d3 ≠ '='.toUInt8) :
    countPadding (outlen + 3) [d0, d1, d2, d3] = outlen + 3 := by
  simp [countPadding, n0, n1, n2, n3]

theorem countPadding_one {d0 d1 : UInt8} (outlen : Nat) (n0 : d0 ≠ '='.toUInt8)
    (n1 : d1 ≠ '='.toUInt8) : countPadding (outlen + 3) [d0, d1, '='.toUInt8, '='.toUInt8] = outlen + 1 := by
  simp [countPadding, n0, n1]

theorem countPadding_two {d0 d1 d2 : UInt8} (outlen : Nat) (n0 : d0 ≠ '='.toUInt8)
    (n1 : d1 ≠ '='.toUInt8) (n2 : d2 ≠ '='.toUInt8) :
    countPadding (outlen + 3) [d0, d1, d2, '='.toUInt8] = outlen + 2 := by
  simp [countPadding, n0, n1, n2]

theorem field_digits (a b c : UInt8) :
    (a >>> 2).toNat < 64 ∧ (((a &&& 0x03) <<< 4) ||| (b >>> 4)).toNat < 64 ∧
      (((b &&& 0x0F) <<< 2) ||| (c >>> 6)).toNat < 64 ∧ (c &&& 0x3F).toNat < 64 := by
  have belowA := a.toNat_lt
  have belowB := b.toNat_lt
  have belowC := c.toNat_lt
  rw [toNat_field0, toNat_field1, toNat_field2, toNat_field3]
  omega

/-- Decoding the four digits of three bytes gives the bytes. -/
theorem groupBytes_fields (a b c : UInt8) :
    groupBytes (a >>> 2) (((a &&& 0x03) <<< 4) ||| (b >>> 4)) (((b &&& 0x0F) <<< 2) ||| (c >>> 6))
      (c &&& 0x3F) = [a, b, c] := by
  obtain ⟨d0, d1, d2, d3⟩ := field_digits a b c
  have belowA := a.toNat_lt
  have belowB := b.toNat_lt
  have belowC := c.toNat_lt
  simp only [groupBytes, List.cons.injEq, and_true]
  refine ⟨UInt8.toNat_inj.mp ?_, UInt8.toNat_inj.mp ?_, UInt8.toNat_inj.mp ?_⟩
  · rw [toNat_byte0 _ d1, toNat_field0, toNat_field1]
    omega
  · rw [toNat_byte1 _ d2, toNat_field1, toNat_field2]
    omega
  · rw [toNat_byte2 _ d3, toNat_field2, toNat_field3]
    omega

/-- Encoding the bytes of four digits gives the digits. -/
theorem fields_groupBytes {v0 v1 v2 v3 : UInt8} (digit0 : v0.toNat < 64) (digit1 : v1.toNat < 64)
    (digit2 : v2.toNat < 64) (digit3 : v3.toNat < 64) :
    ((v0 <<< 2) ||| (v1 >>> 4)) >>> 2 = v0 ∧
      ((((v0 <<< 2) ||| (v1 >>> 4)) &&& 0x03) <<< 4) ||| (((v1 <<< 4) ||| (v2 >>> 2)) >>> 4) = v1 ∧
      ((((v1 <<< 4) ||| (v2 >>> 2)) &&& 0x0F) <<< 2) ||| (((v2 <<< 6) ||| v3) >>> 6) = v2 ∧
      ((v2 <<< 6) ||| v3) &&& 0x3F = v3 := by
  refine ⟨UInt8.toNat_inj.mp ?_, UInt8.toNat_inj.mp ?_, UInt8.toNat_inj.mp ?_, UInt8.toNat_inj.mp ?_⟩
  · rw [toNat_field0, toNat_byte0 _ digit1]
    omega
  · rw [toNat_field1, toNat_byte0 _ digit1, toNat_byte1 _ digit2]
    omega
  · rw [toNat_field2, toNat_byte1 _ digit2, toNat_byte2 _ digit3]
    omega
  · rw [toNat_field3, toNat_byte2 _ digit3]
    omega

/-! ### Whole strings -/

/-- One pass of the outer loop over a group of four characters. -/
theorem fromBase64Loop_group (groups outlen : Nat) (d0 d1 d2 d3 : UInt8) (rest : List UInt8) :
    fromBase64Loop (groups + 1) ([d0, d1, d2, d3] ++ rest) outlen
      = (groupBytes (UInt8.ofInt (b642bin d0)) (UInt8.ofInt (b642bin d1)) (UInt8.ofInt (b642bin d2))
            (UInt8.ofInt (b642bin d3))
          ++ (fromBase64Loop groups rest (countPadding (outlen + 3) [d0, d1, d2, d3])).1,
        (fromBase64Loop groups rest (countPadding (outlen + 3) [d0, d1, d2, d3])).2) := rfl

theorem length_chunkToBase64 : ∀ chunk : List UInt8,
    (chunkToBase64 chunk).length = 4 * ((chunk.length + 2) / 3)
  | [] => rfl
  | [_] => by simp [chunkToBase64]
  | [_, _] => by simp [chunkToBase64]
  | _ :: _ :: _ :: rest => by
    rw [chunkToBase64, List.length_append, length_chunkToBase64 rest]
    simp only [List.length_cons, List.length_nil]
    omega

theorem canonical_chunkToBase64 : ∀ chunk : List UInt8, Canonical (chunkToBase64 chunk)
  | [] => .nil
  | [a] => by
    have tail := toNat_tail1 a
    exact .one (field_digits a 0 0).1 (by omega) (by omega)
  | [a, b] => by
    have tail := toNat_tail2 b
    obtain ⟨d0, d1, -, -⟩ := field_digits a b 0
    exact .two d0 d1 (by omega) (by omega)
  | a :: b :: c :: rest => by
    obtain ⟨d0, d1, d2, d3⟩ := field_digits a b c
    exact .group d0 d1 d2 d3 (canonical_chunkToBase64 rest)

/-- Decoding an encoding writes the chunk and at most two bytes after it, and
counts exactly the chunk's length. -/
theorem fromBase64Loop_chunkToBase64 : ∀ (chunk : List UInt8) (outlen : Nat), ∃ junk,
    fromBase64Loop ((chunkToBase64 chunk).length / 4) (chunkToBase64 chunk) outlen
      = (chunk ++ junk, outlen + chunk.length)
  | [], _ => ⟨[], rfl⟩
  | [a], outlen => by
    have below := a.toNat_lt
    have tail : ((a &&& 0x03) <<< 4).toNat < 64 := by rw [toNat_tail1]; omega
    obtain ⟨read0, pad0⟩ := b642bin_b64digit (field_digits a 0 0).1
    obtain ⟨read1, pad1⟩ := b642bin_b64digit tail
    have first : ((a >>> 2) <<< 2) ||| (((a &&& 0x03) <<< 4) >>> 4) = a := by
      apply UInt8.toNat_inj.mp
      rw [toNat_byte0 _ tail, toNat_field0, toNat_tail1]
      omega
    refine ⟨(groupBytes (a >>> 2) ((a &&& 0x03) <<< 4) 0 0).tail, ?_⟩
    have groups : (chunkToBase64 [a]).length / 4 = 0 + 1 := by simp [chunkToBase64]
    rw [groups, show chunkToBase64 [a] = [b64digit (a >>> 2), b64digit ((a &&& 0x03) <<< 4), '='.toUInt8,
        '='.toUInt8] ++ [] from rfl, fromBase64Loop_group, read0, read1, b642bin_pad,
      countPadding_one outlen pad0 pad1]
    simp only [groupBytes, first, fromBase64Loop, List.append_nil]
    rfl
  | [a, b], outlen => by
    have belowA := a.toNat_lt
    have belowB := b.toNat_lt
    have tail : ((b &&& 0x0F) <<< 2).toNat < 64 := by rw [toNat_tail2]; omega
    obtain ⟨d0, d1, -, -⟩ := field_digits a b 0
    obtain ⟨read0, pad0⟩ := b642bin_b64digit d0
    obtain ⟨read1, pad1⟩ := b642bin_b64digit d1
    obtain ⟨read2, pad2⟩ := b642bin_b64digit tail
    have first : ((a >>> 2) <<< 2) ||| ((((a &&& 0x03) <<< 4) ||| (b >>> 4)) >>> 4) = a := by
      apply UInt8.toNat_inj.mp
      rw [toNat_byte0 _ d1, toNat_field0, toNat_field1]
      omega
    have second : ((((a &&& 0x03) <<< 4) ||| (b >>> 4)) <<< 4) ||| (((b &&& 0x0F) <<< 2) >>> 2) = b := by
      apply UInt8.toNat_inj.mp
      rw [toNat_byte1 _ tail, toNat_field1, toNat_tail2]
      omega
    refine ⟨[(((b &&& 0x0F) <<< 2) <<< 6) ||| 0], ?_⟩
    have groups : (chunkToBase64 [a, b]).length / 4 = 0 + 1 := by simp [chunkToBase64]
    rw [groups, show chunkToBase64 [a, b] = [b64digit (a >>> 2),
        b64digit (((a &&& 0x03) <<< 4) ||| (b >>> 4)), b64digit ((b &&& 0x0F) <<< 2), '='.toUInt8] ++ []
        by simp [chunkToBase64], fromBase64Loop_group, read0,
      read1, read2, b642bin_pad, countPadding_two outlen pad0 pad1 pad2]
    simp only [groupBytes, first, second, fromBase64Loop, List.append_nil]
    rfl
  | a :: b :: c :: rest, outlen => by
    obtain ⟨d0, d1, d2, d3⟩ := field_digits a b c
    obtain ⟨read0, pad0⟩ := b642bin_b64digit d0
    obtain ⟨read1, pad1⟩ := b642bin_b64digit d1
    obtain ⟨read2, pad2⟩ := b642bin_b64digit d2
    obtain ⟨read3, pad3⟩ := b642bin_b64digit d3
    obtain ⟨junk, later⟩ := fromBase64Loop_chunkToBase64 rest (outlen + 3)
    refine ⟨junk, ?_⟩
    have groups : (chunkToBase64 (a :: b :: c :: rest)).length / 4
        = (chunkToBase64 rest).length / 4 + 1 := by
      rw [chunkToBase64, List.length_append]
      simp only [List.length_cons, List.length_nil]
      omega
    rw [groups, chunkToBase64, fromBase64Loop_group, read0, read1, read2, read3,
      countPadding_digits outlen pad0 pad1 pad2 pad3, groupBytes_fields, later]
    simp only [List.length_cons, List.cons_append, List.nil_append, Prod.mk.injEq, true_and]
    omega

/-- Every canonical text is the encoding of the bytes its groups decode to. -/
theorem exists_chunkToBase64 {text : List UInt8} (canonical : Canonical text) :
    ∃ chunk, chunkToBase64 chunk = text := by
  induction canonical with
  | nil => exact ⟨[], rfl⟩
  | @one v0 v1 digit0 digit1 clear =>
    have below0 := v0.toNat_lt
    refine ⟨[(v0 <<< 2) ||| (v1 >>> 4)], ?_⟩
    have high : ((v0 <<< 2) ||| (v1 >>> 4)) >>> 2 = v0 :=
      (fields_groupBytes digit0 digit1 (show (0 : UInt8).toNat < 64 by decide)
        (show (0 : UInt8).toNat < 64 by decide)).1
    have low : (((v0 <<< 2) ||| (v1 >>> 4)) &&& 0x03) <<< 4 = v1 := by
      apply UInt8.toNat_inj.mp
      rw [toNat_tail1, toNat_byte0 _ digit1]
      omega
    rw [chunkToBase64, high, low]
  | @two v0 v1 v2 digit0 digit1 digit2 clear =>
    have below1 := v1.toNat_lt
    refine ⟨[(v0 <<< 2) ||| (v1 >>> 4), (v1 <<< 4) ||| (v2 >>> 2)], ?_⟩
    obtain ⟨high, middle, -, -⟩ :=
      fields_groupBytes digit0 digit1 digit2 (show (0 : UInt8).toNat < 64 by decide)
    have low : (((v1 <<< 4) ||| (v2 >>> 2)) &&& 0x0F) <<< 2 = v2 := by
      apply UInt8.toNat_inj.mp
      rw [toNat_tail2, toNat_byte1 _ digit2]
      omega
    rw [chunkToBase64, high, middle, low]
  | @group v0 v1 v2 v3 rest digit0 digit1 digit2 digit3 _ ih =>
    obtain ⟨chunk, encoded⟩ := ih
    refine ⟨((v0 <<< 2) ||| (v1 >>> 4)) :: ((v1 <<< 4) ||| (v2 >>> 2)) :: ((v2 <<< 6) ||| v3) :: chunk, ?_⟩
    obtain ⟨field0, field1, field2, field3⟩ := fields_groupBytes digit0 digit1 digit2 digit3
    rw [chunkToBase64, field0, field1, field2, field3, encoded]

/-- `chunk_from_base64` undoes `chunk_to_base64`, whose output has
`4 ⌈|c| / 3⌉` characters and is canonical; and `chunk_to_base64` undoes
`chunk_from_base64` on every canonical text. -/
theorem chunkFromBase64_chunkToBase64 :
    (∀ chunk, chunkFromBase64 (chunkToBase64 chunk) = chunk ∧
        (chunkToBase64 chunk).length = 4 * ((chunk.length + 2) / 3) ∧
        Canonical (chunkToBase64 chunk)) ∧
      (∀ text, Canonical text → chunkToBase64 (chunkFromBase64 text) = text) := by
  have decodes : ∀ chunk, chunkFromBase64 (chunkToBase64 chunk) = chunk := by
    intro chunk
    obtain ⟨junk, run⟩ := fromBase64Loop_chunkToBase64 chunk 0
    rw [chunkFromBase64, run, Nat.zero_add, List.take_left]
  refine ⟨fun chunk => ⟨decodes chunk, length_chunkToBase64 chunk, canonical_chunkToBase64 chunk⟩, ?_⟩
  intro text canonical
  obtain ⟨chunk, rfl⟩ := exists_chunkToBase64 canonical
  rw [decodes]

end StrongSwan.Libstrongswan.Utils.ChunkEncodings
