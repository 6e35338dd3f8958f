import StrongSwan.Foundations.Runs
import StrongSwan.Libtls.TlsFragmentation

/-!
Contract: record protection of libtls (`tls_protection.c`) over the
fragmentation layer; `tls_compression.c` passes every record through unchanged.

Inbound, a record is decrypted with `aead_in` under `seq_in` when the
negotiated version is below TLS 1.3 or its outer type is application data;
from TLS 1.3 on, records of every other outer type go up as they came, also
once an inbound AEAD is installed. Outbound, every record but a ChangeCipherSpec
below TLS 1.3 is encrypted with `aead_out` under `seq_out`.

Owns: `TlsAead` (`tls_aead_t` encrypt and decrypt as parameters),
`TlsProtection` with `process`, `build`, `setCipher` and `setVersion`; the
events of a connection's inbound side as a step function; what a record whose
outer type is not application data does from TLS 1.3 on; what an unprotected
handshake or alert record does after the inbound key switch.

Does not own: the AEAD constructions and their nonces (`tls_aead*.c`), record
framing (`tls.c`), and the handshake's own calls of `set_cipher`, which the
step function takes as events between records.
-/

namespace StrongSwan.Libtls

open StrongSwan.Foundations
open StrongSwan.Libstrongswan.Utils

/-- `TLS_1_3`. -/
def tls13 : UInt16 := 0x0304

/-- `tls_aead_t`: encrypt or decrypt one record under a version and a
sequence number; both may change the content type. -/
structure TlsAead (κ : Type) where
  encrypt : κ → UInt16 → UInt8 → UInt64 → List UInt8 → Option (UInt8 × List UInt8)
  decrypt : κ → UInt16 → UInt8 → UInt64 → List UInt8 → Option (UInt8 × List UInt8)

/-- `private_tls_protection_t`. The alert handler it shares with fragmentation
is the one the fragmentation layer holds, and since compression passes records
through, the upper layer held here is the fragmentation layer itself. -/
structure TlsProtection (κ σ τ : Type) where
  version : UInt16
  compression : TlsFragmentation σ τ
  seqIn : UInt64
  seqOut : UInt64
  aeadIn : Option κ
  aeadOut : Option κ

variable {κ σ τ : Type}

/-- `tls_protection_create`: no AEADs, both sequence numbers zero. -/
def tlsProtectionCreate (compression : TlsFragmentation σ τ) : TlsProtection κ σ τ :=
  ⟨0, compression, 0, 0, none, none⟩

namespace TlsProtection

variable (aead : TlsAead κ) (handshake : TlsHandshake σ) (application : TlsApplication τ)

/-- `this->compression->process(this->compression, type, data)`. -/
def forward (protection : TlsProtection κ σ τ) (type : UInt8) (data : List UInt8) :
    TlsProtection κ σ τ × Status :=
  let processed := TlsFragmentation.process handshake application protection.compression type data
  ({ protection with compression := processed.1 }, processed.2)

/-- `process`: one received record. -/
def process (protection : TlsProtection κ σ τ) (type : UInt8) (data : List UInt8) :
    TlsProtection κ σ τ × Status :=
  if protection.compression.alert.fatal then (protection, .needMore)
  else if protection.version < tls13 ∨ type = tlsApplicationData then
    match protection.aeadIn with
    | none => forward handshake application { protection with seqIn := protection.seqIn + 1 } type data
    | some key =>
        match aead.decrypt key protection.version type protection.seqIn data with
        | none =>
            ({ protection with
                compression := protection.compression.addAlert tlsFatal tlsBadRecordMac }, .needMore)
        | some (plainType, plain) =>
            forward handshake application { protection with seqIn := protection.seqIn + 1 }
              plainType plain
  else forward handshake application protection type data

/-- `build`, given what `compression->build` returned: status, type and data. -/
def build (protection : TlsProtection κ σ τ) (status : Status) (type : UInt8) (data : List UInt8) :
    TlsProtection κ σ τ × Status × UInt8 × List UInt8 :=
  if status = .needMore then
    if type = tlsChangeCipherSpec ∧ protection.version < tls13 then (protection, status, type, data)
    else
      match protection.aeadOut with
      | none => ({ protection with seqOut := protection.seqOut + 1 }, status, type, data)
      | some key =>
          match aead.encrypt key protection.version type protection.seqOut data with
          | none => (protection, .failed, type, [])
          | some (sealedType, sealed) =>
              ({ protection with seqOut := protection.seqOut + 1 }, status, sealedType, sealed)
  else (protection, status, type, data)

/-- `set_cipher`: a new AEAD for one direction restarts its sequence number. -/
def setCipher (protection : TlsProtection κ σ τ) (inbound : Bool) (key : Option κ) :
    TlsProtection κ σ τ :=
  if inbound then { protection with aeadIn := key, seqIn := 0 }
  else { protection with aeadOut := key, seqOut := 0 }

/-- `set_version`. -/
def setVersion (protection : TlsProtection κ σ τ) (version : UInt16) : TlsProtection κ σ τ :=
  { protection with version := version }

/-- What reaches record protection on the inbound side: received records, and
the key and version changes the handshake makes between them. -/
inductive InboundEvent (κ : Type) where
  | record (type : UInt8) (data : List UInt8)
  | setCipher (inbound : Bool) (key : Option κ)
  | setVersion (version : UInt16)

/-- One inbound event; a record answers with the status of `process`. -/
def inboundStep (protection : TlsProtection κ σ τ) : InboundEvent κ → TlsProtection κ σ τ × Option Status
  | .record type data =>
      let processed := process aead handshake application protection type data
      (processed.1, some processed.2)
  | .setCipher inbound key => (protection.setCipher inbound key, none)
  | .setVersion version => (protection.setVersion version, none)

@[simp] theorem compression_setCipher (protection : TlsProtection κ σ τ) (inbound : Bool)
    (key : Option κ) : (protection.setCipher inbound key).compression = protection.compression := by
  unfold setCipher
  split <;> rfl

@[simp] theorem aeadIn_setCipher_inbound (protection : TlsProtection κ σ τ) (key : Option κ) :
    (protection.setCipher true key).aeadIn = key := rfl

@[simp] theorem seqIn_setCipher_inbound (protection : TlsProtection κ σ τ) (key : Option κ) :
    (protection.setCipher true key).seqIn = 0 := rfl

@[simp] theorem version_setCipher (protection : TlsProtection κ σ τ) (inbound : Bool)
    (key : Option κ) : (protection.setCipher inbound key).version = protection.version := by
  unfold setCipher
  split <;> rfl

/-- From TLS 1.3 on, a record whose outer type is not application data goes to
the upper layer as it came, whatever AEAD is installed. -/
theorem process_of_tls13_not_applicationData {protection : TlsProtection κ σ τ}
    (noFatal : protection.compression.alert.fatal = false)
    (tls13Negotiated : tls13 ≤ protection.version) {type : UInt8}
    (notApplicationData : type ≠ tlsApplicationData) (data : List UInt8) :
    process aead handshake application protection type data =
      forward handshake application protection type data := by
  have unprotected : ¬ (protection.version < tls13 ∨ type = tlsApplicationData) := by
    rintro (below | applicationData)
    · exact absurd below (UInt16.not_lt.mpr tls13Negotiated)
    · exact notApplicationData applicationData
  simp only [process, noFatal, Bool.false_eq_true, if_false, unprotected]

/-- A handshake layer that keeps every message it is given. -/
def recordingHandshake : TlsHandshake (List (UInt8 × List UInt8)) where
  process seen type message := (seen ++ [(type, message)], [], .needMore)
  cipherspecChanged _ _ := false
  changeCipherspec seen _ := seen
  finished _ := false

/-- An application that reads and drops whatever it is given. -/
def discardingApplication : TlsApplication Unit where
  process _ _ := ((), [], .needMore)
  consumes := by
    intro _ data nonempty _
    exact List.length_pos_iff.mpr nonempty

/-- An AEAD whose decryption of a record is the record itself. -/
def identityAead : TlsAead Unit where
  encrypt _ _ type _ data := some (type, data)
  decrypt _ _ type _ data := some (type, data)

/-- A TLS 1.3 client that has just processed the ServerHello. -/
def clientAfterServerHello : TlsProtection Unit (List (UInt8 × List UInt8)) Unit where
  version := tls13
  compression := ⟨[], tlsAlertCreate, .alertNone, false, none, (), .generic⟩
  seqIn := 0
  seqOut := 0
  aeadIn := none
  aeadOut := none

/-- After the inbound key switch of a TLS 1.3 connection, an unprotected
handshake record holding one whole message reaches the handshake, and an
unprotected alert record reaches the alert handler; neither is decrypted, and
neither advances the inbound sequence number. -/
theorem process_passes_unprotected_after_key_switch (key : κ) {protection : TlsProtection κ σ τ}
    (tls13Negotiated : tls13 ≤ protection.version)
    (noFatal : protection.compression.alert.fatal = false)
    (open_ : protection.compression.state = .alertNone)
    (noPending : protection.compression.input = none)
    (type high middle low : UInt8) {body : List UInt8}
    (length : TlsFragmentation.readUint24 high middle low = body.length)
    (fitsRecord : body.length + 4 ≤ tlsMaxFragmentLen) (level description : UInt8) :
    let keyed := protection.setCipher true (some key)
    let afterHandshake := process aead handshake application keyed tlsHandshake
      (type :: high :: middle :: low :: body)
    let afterAlert := process aead handshake application keyed tlsAlert [level, description]
    afterHandshake.1.compression.handshake =
        (handshake.process protection.compression.handshake type body).1 ∧
      afterHandshake.1.seqIn = 0 ∧
      afterAlert.1.compression.alert = (protection.compression.alert.process level description).1 ∧
      afterAlert.1.seqIn = 0 := by
  intro keyed afterHandshake afterAlert
  have keyedNoFatal : keyed.compression.alert.fatal = false := by simpa [keyed] using noFatal
  have keyedVersion : tls13 ≤ keyed.version := by simpa [keyed] using tls13Negotiated
  -- both records bypass decryption and go to the fragmentation layer as they came
  have handshakeForwarded := process_of_tls13_not_applicationData aead handshake application
    keyedNoFatal keyedVersion (by decide : tlsHandshake ≠ tlsApplicationData)
    (type :: high :: middle :: low :: body)
  have alertForwarded := process_of_tls13_not_applicationData aead handshake application
    keyedNoFatal keyedVersion (by decide : tlsAlert ≠ tlsApplicationData) [level, description]
  have sameLayer : keyed.compression = protection.compression := compression_setCipher _ _ _
  have delivered := TlsFragmentation.process_whole_message handshake application open_ noPending
    type high middle low length fitsRecord
  have alerted := TlsFragmentation.process_alert_record handshake application open_ level
    description []
  refine ⟨?_, ?_, ?_, ?_⟩
  · simp only [afterHandshake, handshakeForwarded, forward, sameLayer, delivered,
      TlsFragmentation.deliverMessage]
  · simp only [afterHandshake, handshakeForwarded, forward]
    exact seqIn_setCipher_inbound protection (some key)
  · simp only [afterAlert, alertForwarded, forward, sameLayer, alerted]
  · simp only [afterAlert, alertForwarded, forward]
    exact seqIn_setCipher_inbound protection (some key)

/-- A plaintext EncryptedExtensions message (type 8, two empty extension
bytes) and a plaintext close notify after the inbound key switch. -/
theorem process_passes_unprotected_after_key_switch_encrypted_extensions :
    tls13 ≤ clientAfterServerHello.version ∧
      clientAfterServerHello.compression.alert.fatal = false ∧
      clientAfterServerHello.compression.state = .alertNone ∧
      clientAfterServerHello.compression.input = none ∧
      TlsFragmentation.readUint24 0 0 2 = [0, 0].length ∧
      [(0 : UInt8), 0].length + 4 ≤ tlsMaxFragmentLen ∧
      (let keyed := clientAfterServerHello.setCipher true (some ())
      let afterHandshake := process identityAead recordingHandshake discardingApplication keyed
        tlsHandshake [8, 0, 0, 2, 0, 0]
      let afterAlert := process identityAead recordingHandshake discardingApplication keyed
        tlsAlert [tlsWarning, tlsCloseNotify]
      afterHandshake.1.compression.handshake =
          (recordingHandshake.process clientAfterServerHello.compression.handshake 8 [0, 0]).1 ∧
        afterHandshake.1.seqIn = 0 ∧
        afterAlert.1.compression.alert =
          (clientAfterServerHello.compression.alert.process tlsWarning tlsCloseNotify).1 ∧
        afterAlert.1.seqIn = 0) :=
  ⟨by decide, rfl, rfl, rfl, by decide, by decide,
    process_passes_unprotected_after_key_switch identityAead recordingHandshake discardingApplication
      () (by decide) rfl rfl rfl 8 0 0 2 (by decide) (by decide) tlsWarning tlsCloseNotify⟩

end TlsProtection

end StrongSwan.Libtls
