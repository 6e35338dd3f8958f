import StrongSwan.Libstrongswan.Utils.Status

/-!
Contract: the content encryption of the IKEv2 Encrypted payload,
`encrypt_content` and `decrypt_content` of `encrypted_payload.c`.

The buffer is `IV | plain | padding | ICV`. The sender pads the plaintext to a
multiple of the block size with at least one byte, the last padding byte
holding the padding length minus one in a `uint8_t`; the AEAD encrypts
`plain | padding` in place and appends the ICV. The receiver checks the
lengths, decrypts in place, and strips the padding whose length it reads from
the last decrypted byte.

Owns: the AEAD interface with the lengths its documentation promises,
`compute_overhead`, both routines with every status they return, the byte
`decrypt_content` reads itself, the round trip for block sizes up to 256, the
position of every returned plaintext, and the bounds of that read: inside the
buffer when it holds a byte beyond the IV and the ICV, and the byte before it
for a buffer of just the ICV without an IV.

Does not own: the ciphers behind `aead_t`, the RNG and the IV generator, which
are parameters; the parsing of the decrypted payloads.
-/

namespace StrongSwan.Libcharon.Encoding.Payloads.EncryptedPayload

open StrongSwan.Libstrongswan.Utils

/-- `aead_t` with in-place operation, as `aead.h` documents it: `encrypt`
returns the ciphertext followed by the ICV, `decrypt` the decrypted bytes
that precede the verified ICV. -/
structure Aead where
  blockSize : Nat
  ivSize : Nat
  icvSize : Nat
  encrypt : List UInt8 → List UInt8 → List UInt8 → Option (List UInt8)
  decrypt : List UInt8 → List UInt8 → List UInt8 → Option (List UInt8)
  length_encrypt : ∀ plain assoc iv encrypted, encrypt plain assoc iv = some encrypted →
    encrypted.length = plain.length + icvSize
  length_decrypt : ∀ encrypted assoc iv plain, decrypt encrypted assoc iv = some plain →
    plain.length = encrypted.length - icvSize

/-- `compute_overhead`. -/
def computeOverhead (aead : Aead) (len : Nat) : Nat :=
  aead.blockSize - len % aead.blockSize + aead.ivSize + aead.icvSize

/-- `encrypt_content`. `rng` is the weak RNG (`none` when none is available)
and `ivGen` the AEAD's IV generator; both fill the requested number of bytes
or fail. -/
def encryptContent (aead : Aead) (rng : Option (Nat → Option (List UInt8)))
    (ivGen : Option (UInt64 → Nat → Option (List UInt8))) (mid : UInt64)
    (plain assoc : List UInt8) : Status × Option (List UInt8) :=
  match rng, ivGen with
  | none, _ => (.notSupported, none)
  | some _, none => (.notSupported, none)
  | some getBytes, some getIv =>
      let paddingLen := aead.blockSize - plain.length % aead.blockSize
      match getIv mid aead.ivSize, getBytes (paddingLen - 1) with
      | some iv, some random =>
          let padding := random ++ [UInt8.ofNat (paddingLen - 1)]
          match aead.encrypt (plain ++ padding) assoc iv with
          | some encrypted => (.success, some (iv ++ encrypted))
          | none => (.failed, none)
      | _, _ => (.failed, none)

/-- What `decrypt_content` leaves behind: its status, the plaintext as an
offset and a length into the buffer, the buffer after the in-place decryption,
and the offsets into the buffer that it reads itself. -/
structure Decrypted where
  status : Status
  plain : Option (Nat × Nat)
  buffer : List UInt8
  reads : List Int
deriving Repr, DecidableEq

/-- `decrypt_content`. The padding length is read from offset
`iv.len + plain->len - 1`, which is recorded whether or not it lies inside
the buffer. -/
def decryptContent (aead : Aead) (encrypted assoc : List UInt8) : Decrypted :=
  if aead.ivSize + aead.icvSize > encrypted.length ∨
      (encrypted.length - aead.ivSize - aead.icvSize) % aead.blockSize ≠ 0 then
    ⟨.failed, none, encrypted, []⟩
  else
    let iv := encrypted.take aead.ivSize
    let crypt := encrypted.drop aead.ivSize
    match aead.decrypt crypt assoc iv with
    | none => ⟨.failed, none, encrypted, []⟩
    | some decrypted =>
        let buffer := iv ++ decrypted ++ crypt.drop (crypt.length - aead.icvSize)
        let plainLen := crypt.length - aead.icvSize
        let index : Int := aead.ivSize + plainLen - 1
        let paddingLen := (buffer.getD index.toNat 0).toNat + 1
        if paddingLen > plainLen then ⟨.parseError, none, buffer, [index]⟩
        else ⟨.success, some (aead.ivSize, plainLen - paddingLen), buffer, [index]⟩

/-- The plaintext bytes of a successful decryption. -/
def Decrypted.plainBytes (result : Decrypted) : Option (List UInt8) :=
  result.plain.map fun range => (result.buffer.drop range.1).take range.2

/-! ## The sender -/

theorem paddingLen_pos {blockSize : Nat} (blockSizePositive : 1 ≤ blockSize) (len : Nat) :
    1 ≤ blockSize - len % blockSize := by
  have := Nat.mod_lt len blockSizePositive
  omega

/-- Padding to the next multiple of the block size gives a multiple of it. -/
theorem add_paddingLen_mod {blockSize : Nat} (blockSizePositive : 1 ≤ blockSize) (len : Nat) :
    (len + (blockSize - len % blockSize)) % blockSize = 0 := by
  have split := Nat.mod_add_div len blockSize
  have below := Nat.mod_lt len blockSizePositive
  have whole : len + (blockSize - len % blockSize) = blockSize * (len / blockSize + 1) := by
    rw [Nat.mul_succ]
    omega
  rw [whole, Nat.mul_mod_right]

theorem encryptContent_eq_success {aead : Aead} {rng : Option (Nat → Option (List UInt8))}
    {ivGen : Option (UInt64 → Nat → Option (List UInt8))} {mid : UInt64}
    {plain assoc encrypted : List UInt8}
    (success : encryptContent aead rng ivGen mid plain assoc = (.success, some encrypted)) :
    ∃ getBytes getIv iv random ciphertext, rng = some getBytes ∧ ivGen = some getIv ∧
      getIv mid aead.ivSize = some iv ∧
      getBytes (aead.blockSize - plain.length % aead.blockSize - 1) = some random ∧
      aead.encrypt (plain ++ (random ++
        [UInt8.ofNat (aead.blockSize - plain.length % aead.blockSize - 1)])) assoc iv =
          some ciphertext ∧
      encrypted = iv ++ ciphertext := by
  unfold encryptContent at success
  split at success
  · cases success
  · cases success
  · rename_i getBytes getIv
    dsimp only at success
    split at success
    · rename_i iv random gotIv gotRandom
      split at success
      · rename_i ciphertext encrypts
        cases success
        exact ⟨getBytes, getIv, iv, random, ciphertext, rfl, rfl, gotIv, gotRandom, encrypts, rfl⟩
      · cases success
    · cases success

/-! ## The receiver -/

/-- What `decrypt_content` can do: fail before reading, or read the last
decrypted byte at `iv.len + plain->len - 1`, succeeding only with a
plaintext that leaves at least one byte of padding. -/
theorem decryptContent_cases (aead : Aead) (encrypted assoc : List UInt8) :
    ((decryptContent aead encrypted assoc).status ≠ .success ∧
        (decryptContent aead encrypted assoc).reads = []) ∨
      (aead.ivSize + aead.icvSize ≤ encrypted.length ∧
        (decryptContent aead encrypted assoc).reads =
          [(aead.ivSize : Int) + ((encrypted.length - aead.ivSize - aead.icvSize : Nat) : Int) - 1] ∧
        ((decryptContent aead encrypted assoc).status = .success →
          ∃ paddingLen, 1 ≤ paddingLen ∧
            paddingLen ≤ encrypted.length - aead.ivSize - aead.icvSize ∧
            (decryptContent aead encrypted assoc).plain =
              some (aead.ivSize, encrypted.length - aead.ivSize - aead.icvSize - paddingLen))) := by
  unfold decryptContent
  split_ifs with invalid
  · exact Or.inl ⟨by simp, rfl⟩
  · have lengthsFit : aead.ivSize + aead.icvSize ≤ encrypted.length := by omega
    have plainLen : (encrypted.drop aead.ivSize).length - aead.icvSize =
        encrypted.length - aead.ivSize - aead.icvSize := by
      rw [List.length_drop]
    dsimp only
    split
    · exact Or.inl ⟨by simp, rfl⟩
    · rw [plainLen]
      split_ifs with paddingInvalid
      · exact Or.inr ⟨lengthsFit, rfl, by simp⟩
      · refine Or.inr ⟨lengthsFit, rfl, fun _ => ⟨_, Nat.succ_pos _, by omega, rfl⟩⟩

/-! ## The round trip and the bounds -/

theorem getD_append_singleton_append (front rest : List UInt8) (byte : UInt8) :
    (front ++ [byte] ++ rest).getD front.length 0 = byte := by
  rw [List.getD_eq_getElem?_getD, List.append_assoc, List.getElem?_append_right (le_refl _),
    Nat.sub_self]
  rfl

/-- For block sizes up to 256, `decrypt_content` recovers the plaintext of
every buffer `encrypt_content` produced, with the padding it wrote. -/
theorem decryptContent_encryptContent {aead : Aead} (blockSizePositive : 1 ≤ aead.blockSize)
    (blockSizeFitsByte : aead.blockSize ≤ 256)
    (roundTrip : ∀ plain assoc iv encrypted, aead.encrypt plain assoc iv = some encrypted →
      aead.decrypt encrypted assoc iv = some plain)
    {rng : Option (Nat → Option (List UInt8))}
    {ivGen : Option (UInt64 → Nat → Option (List UInt8))} {mid : UInt64}
    {plain assoc encrypted : List UInt8}
    (randomLength : ∀ getBytes ∈ rng, ∀ len bytes, getBytes len = some bytes → bytes.length = len)
    (ivLength : ∀ getIv ∈ ivGen, ∀ seq len bytes, getIv seq len = some bytes → bytes.length = len)
    (success : encryptContent aead rng ivGen mid plain assoc = (.success, some encrypted)) :
    (decryptContent aead encrypted assoc).status = .success ∧
      (decryptContent aead encrypted assoc).plainBytes = some plain ∧
      ∃ padding, ((decryptContent aead encrypted assoc).buffer.drop aead.ivSize).take
          (encrypted.length - aead.ivSize - aead.icvSize) = plain ++ padding ∧
        padding.length = aead.blockSize - plain.length % aead.blockSize ∧
        padding.getLast?.map UInt8.toNat = some (padding.length - 1) := by
  obtain ⟨getBytes, getIv, iv, random, ciphertext, rfl, rfl, gotIv, gotRandom, encrypts, rfl⟩ :=
    encryptContent_eq_success success
  generalize paddingLenIs : aead.blockSize - plain.length % aead.blockSize = paddingLen
    at gotRandom encrypts
  have padded : 1 ≤ paddingLen := paddingLenIs ▸ paddingLen_pos blockSizePositive plain.length
  have paddingFitsByte : paddingLen ≤ 256 := by omega
  have ivIs := ivLength getIv rfl mid aead.ivSize iv gotIv
  have randomIs := randomLength getBytes rfl _ random gotRandom
  have ciphertextIs := aead.length_encrypt _ assoc iv ciphertext encrypts
  simp only [List.length_append, List.length_singleton, randomIs] at ciphertextIs
  have decrypts := roundTrip _ assoc iv ciphertext encrypts
  have plainLen : (iv ++ ciphertext).length - aead.ivSize - aead.icvSize =
      plain.length + paddingLen := by
    simp only [List.length_append, ivIs, ciphertextIs]
    omega
  have multiple : (plain.length + paddingLen) % aead.blockSize = 0 :=
    paddingLenIs ▸ add_paddingLen_mod blockSizePositive plain.length
  have lastByte : (UInt8.ofNat (paddingLen - 1)).toNat = paddingLen - 1 := by
    rw [UInt8.toNat_ofNat', Nat.mod_eq_of_lt (by omega)]
  -- the buffer is `IV | plain | random padding | padding length | ICV`
  have readsLastByte : ∀ rest, (iv ++ (plain ++ (random ++ [UInt8.ofNat (paddingLen - 1)])) ++
      rest).getD (aead.ivSize + (plain.length + paddingLen) - 1) 0 =
        UInt8.ofNat (paddingLen - 1) := by
    intro rest
    have atEnd : aead.ivSize + (plain.length + paddingLen) - 1 = (iv ++ plain ++ random).length := by
      simp only [List.length_append, ivIs, randomIs]
      omega
    rw [atEnd]
    simpa only [List.append_assoc] using getD_append_singleton_append (iv ++ plain ++ random)
      rest (UInt8.ofNat (paddingLen - 1))
  unfold decryptContent
  rw [if_neg (by rw [plainLen, multiple]; omega), List.take_left' ivIs, List.drop_left' ivIs]
  dsimp only
  rw [decrypts]
  dsimp only
  have ciphertextPlain : ciphertext.length - aead.icvSize = plain.length + paddingLen := by omega
  have indexIs : ((aead.ivSize : Int) + ((plain.length + paddingLen : Nat) : Int) - 1).toNat =
      aead.ivSize + (plain.length + paddingLen) - 1 := by
    omega
  rw [ciphertextPlain, indexIs, readsLastByte, lastByte, if_neg (by omega)]
  refine ⟨rfl, ?_, random ++ [UInt8.ofNat (paddingLen - 1)], ?_, ?_, ?_⟩
  · have plainLength : plain.length + paddingLen - (paddingLen - 1 + 1) = plain.length := by
      omega
    simp [Decrypted.plainBytes, List.drop_left' ivIs, plainLength]
  · have decryptedLength : (plain ++ (random ++ [UInt8.ofNat (paddingLen - 1)])).length =
        plain.length + paddingLen := by
      simp [randomIs]
      omega
    rw [plainLen, List.append_assoc, List.drop_left' ivIs, List.take_left' decryptedLength]
  · simp [randomIs]
    omega
  · simp [lastByte, randomIs]

/-- Every successful decryption returns a plaintext that starts the crypt
part and ends at least one byte before the ICV. -/
theorem decryptContent_plain_inside (aead : Aead) (encrypted assoc : List UInt8)
    (success : (decryptContent aead encrypted assoc).status = .success) :
    ∃ length, (decryptContent aead encrypted assoc).plain = some (aead.ivSize, length) ∧
      aead.ivSize + length < encrypted.length - aead.icvSize := by
  rcases decryptContent_cases aead encrypted assoc with ⟨failed, -⟩ | ⟨lengthsFit, -, succeeded⟩
  · exact absurd success failed
  · obtain ⟨paddingLen, padded, fits, plainIs⟩ := succeeded success
    exact ⟨_, plainIs, by omega⟩

/-- When the buffer holds a byte beyond the IV and the ICV, the byte
`decrypt_content` reads lies inside it. -/
theorem decryptContent_reads_inside (aead : Aead) (encrypted assoc : List UInt8)
    (beyond : aead.ivSize + aead.icvSize < encrypted.length) :
    ∀ index ∈ (decryptContent aead encrypted assoc).reads,
      0 ≤ index ∧ index < encrypted.length := by
  rcases decryptContent_cases aead encrypted assoc with ⟨-, noReads⟩ | ⟨-, readsIs, -⟩
  · simp [noReads]
  · intro index member
    rw [readsIs, List.mem_singleton] at member
    subst member
    omega

/-- `ENCR_NULL` with an all-zero ICV: the identity cipher, an AEAD whose
decryption inverts its encryption for every block size. -/
def nullAead (blockSize ivSize icvSize : Nat) : Aead where
  blockSize := blockSize
  ivSize := ivSize
  icvSize := icvSize
  encrypt plain _ _ := some (plain ++ List.replicate icvSize 0)
  decrypt encrypted _ _ := some (encrypted.take (encrypted.length - icvSize))
  length_encrypt := by
    intro plain assoc iv encrypted encrypts
    cases encrypts
    simp
  length_decrypt := by
    intro encrypted assoc iv plain decrypts
    cases decrypts
    simp

theorem nullAead_roundTrip (blockSize ivSize icvSize : Nat) (plain assoc iv encrypted : List UInt8)
    (encrypts : (nullAead blockSize ivSize icvSize).encrypt plain assoc iv = some encrypted) :
    (nullAead blockSize ivSize icvSize).decrypt encrypted assoc iv = some plain := by
  cases encrypts
  simp [nullAead]

/-- Without an IV, a buffer of just the ICV passes both length checks, and once its ICV
verifies, `decrypt_content` reads the padding length at `plain->ptr[plain->len - 1]` with
`plain->len` zero: the byte before the buffer. Whatever that byte is, the padding is longer
than the empty plaintext. -/
theorem decryptContent_reads_before_buffer (aead : Aead) (noIv : aead.ivSize = 0) (encrypted assoc : List UInt8)
    (onlyIcv : encrypted.length = aead.icvSize) (verified : (aead.decrypt encrypted assoc []).isSome) :
    (decryptContent aead encrypted assoc).reads = [-1] ∧
      (decryptContent aead encrypted assoc).status = .parseError := by
  obtain ⟨decrypted, decrypts⟩ := Option.isSome_iff_exists.mp verified
  have lengthsFit : ¬(aead.ivSize + aead.icvSize > encrypted.length ∨
      (encrypted.length - aead.ivSize - aead.icvSize) % aead.blockSize ≠ 0) := by
    rw [noIv, onlyIcv]
    simp
  unfold decryptContent
  rw [if_neg lengthsFit]
  simp only [noIv, List.take_zero, List.drop_zero, decrypts, onlyIcv, Nat.sub_self]
  rw [if_pos (Nat.succ_pos _)]
  exact ⟨rfl, rfl⟩

theorem decryptContent_reads_before_buffer_null :
    (nullAead 1 0 16).ivSize = 0 ∧ (List.replicate 16 (0 : UInt8)).length = (nullAead 1 0 16).icvSize ∧
      ((nullAead 1 0 16).decrypt (List.replicate 16 0) [] []).isSome ∧
      (decryptContent (nullAead 1 0 16) (List.replicate 16 0) []).reads = [-1] ∧
      (decryptContent (nullAead 1 0 16) (List.replicate 16 0) []).status = .parseError :=
  ⟨rfl, rfl, rfl, decryptContent_reads_before_buffer (nullAead 1 0 16) rfl _ [] rfl rfl⟩

/-- The contract of `encrypt_content` and `decrypt_content` for every AEAD
whose decryption inverts its encryption and whose block size fits the
one-byte padding length: the round trip with its padding, the position of
every returned plaintext, and the bounds of the padding-length read whenever
the buffer holds a byte beyond the IV and the ICV. -/
theorem encryptedContent_contract (aead : Aead) (blockSizePositive : 1 ≤ aead.blockSize)
    (blockSizeFitsByte : aead.blockSize ≤ 256)
    (roundTrip : ∀ plain assoc iv encrypted, aead.encrypt plain assoc iv = some encrypted →
      aead.decrypt encrypted assoc iv = some plain) :
    (∀ (rng : Option (Nat → Option (List UInt8)))
        (ivGen : Option (UInt64 → Nat → Option (List UInt8))) mid plain assoc encrypted,
        (∀ getBytes ∈ rng, ∀ len bytes, getBytes len = some bytes → bytes.length = len) →
        (∀ getIv ∈ ivGen, ∀ seq len bytes, getIv seq len = some bytes → bytes.length = len) →
        encryptContent aead rng ivGen mid plain assoc = (.success, some encrypted) →
        (decryptContent aead encrypted assoc).status = .success ∧
          (decryptContent aead encrypted assoc).plainBytes = some plain ∧
          ∃ padding, ((decryptContent aead encrypted assoc).buffer.drop aead.ivSize).take
              (encrypted.length - aead.ivSize - aead.icvSize) = plain ++ padding ∧
            padding.length = aead.blockSize - plain.length % aead.blockSize ∧
            padding.getLast?.map UInt8.toNat = some (padding.length - 1)) ∧
      (∀ encrypted assoc, (decryptContent aead encrypted assoc).status = .success →
        ∃ length, (decryptContent aead encrypted assoc).plain = some (aead.ivSize, length) ∧
          aead.ivSize + length < encrypted.length - aead.icvSize) ∧
      (∀ encrypted assoc, aead.ivSize + aead.icvSize < encrypted.length →
        ∀ index ∈ (decryptContent aead encrypted assoc).reads,
          0 ≤ index ∧ index < encrypted.length) := by
  refine ⟨?_, decryptContent_plain_inside aead, decryptContent_reads_inside aead⟩
  intro rng ivGen mid plain assoc encrypted randomLength ivLength success
  exact decryptContent_encryptContent blockSizePositive blockSizeFitsByte roundTrip randomLength
    ivLength success

theorem encryptedContent_contract_null_cipher :
    1 ≤ (nullAead 16 8 16).blockSize ∧ (nullAead 16 8 16).blockSize ≤ 256 ∧
      (∀ (rng : Option (Nat → Option (List UInt8)))
          (ivGen : Option (UInt64 → Nat → Option (List UInt8))) mid plain assoc encrypted,
          (∀ getBytes ∈ rng, ∀ len bytes, getBytes len = some bytes → bytes.length = len) →
          (∀ getIv ∈ ivGen, ∀ seq len bytes, getIv seq len = some bytes → bytes.length = len) →
          encryptContent (nullAead 16 8 16) rng ivGen mid plain assoc =
            (.success, some encrypted) →
          (decryptContent (nullAead 16 8 16) encrypted assoc).status = .success ∧
            (decryptContent (nullAead 16 8 16) encrypted assoc).plainBytes = some plain ∧
            ∃ padding, ((decryptContent (nullAead 16 8 16) encrypted assoc).buffer.drop 8).take
                (encrypted.length - 8 - 16) = plain ++ padding ∧
              padding.length = 16 - plain.length % 16 ∧
              padding.getLast?.map UInt8.toNat = some (padding.length - 1)) ∧
        (∀ encrypted assoc, (decryptContent (nullAead 16 8 16) encrypted assoc).status = .success →
          ∃ length, (decryptContent (nullAead 16 8 16) encrypted assoc).plain = some (8, length) ∧
            8 + length < encrypted.length - 16) ∧
        (∀ encrypted assoc, 8 + 16 < encrypted.length →
          ∀ index ∈ (decryptContent (nullAead 16 8 16) encrypted assoc).reads,
            0 ≤ index ∧ index < encrypted.length) :=
  ⟨by decide, by decide, encryptedContent_contract (nullAead 16 8 16) (by decide) (by decide)
    (nullAead_roundTrip 16 8 16)⟩

end StrongSwan.Libcharon.Encoding.Payloads.EncryptedPayload
