import StrongSwan.Foundations.ConsumingLoop
import StrongSwan.Libstrongswan.Utils.Status

/-!
Contract: the inbound TLS record path above record protection: the alert
handler of `tls_alert.c`, which record protection and fragmentation share, and
`process` of `tls_fragmentation.c` with its alert, handshake and
application-data branches.

A record reaches `process` as a content type byte and its data. A
ChangeCipherSpec record is accepted while the handshake's
`cipherspec_changed(TRUE)` holds, an alert record goes to the alert handler,
and handshake records are reassembled into messages that go one by one to the
handshake layer; once the handshake is finished, what is left of a handshake
record and every application-data record go to the application.

Owns: `TlsAlert` with `add` and `process`; the interfaces `TlsHandshake` and
`TlsApplication` as this layer calls them; `TlsFragmentation` with
`processAlert`, `processHandshake`, `processApplication` and `process`; what a
record holding one whole handshake message, or one alert, does.

Does not own: record protection; the outbound `build` side with its output
buffer and alert sending (`check_alerts`, `get`); the handshake state machines
and applications behind the interfaces.
-/

namespace StrongSwan.Libtls

open StrongSwan.Foundations
open StrongSwan.Libstrongswan.Utils

/-! Content types, alert codes and limits. A record carries its content type
as a raw byte and an alert carries its level and description as raw bytes, so
these stay bytes. -/

/-- `TLS_CHANGE_CIPHER_SPEC`. -/
def tlsChangeCipherSpec : UInt8 := 20
/-- `TLS_ALERT`. -/
def tlsAlert : UInt8 := 21
/-- `TLS_HANDSHAKE`. -/
def tlsHandshake : UInt8 := 22
/-- `TLS_APPLICATION_DATA`. -/
def tlsApplicationData : UInt8 := 23

/-- `TLS_WARNING`. -/
def tlsWarning : UInt8 := 1
/-- `TLS_FATAL`. -/
def tlsFatal : UInt8 := 2

/-- `TLS_CLOSE_NOTIFY`. -/
def tlsCloseNotify : UInt8 := 0
/-- `TLS_BAD_RECORD_MAC`. -/
def tlsBadRecordMac : UInt8 := 20
/-- `TLS_DECODE_ERROR`. -/
def tlsDecodeError : UInt8 := 50

/-- `TLS_MAX_FRAGMENT_LEN`. -/
def tlsMaxFragmentLen : Nat := 16384
/-- `TLS_MAX_HANDSHAKE_LEN`. -/
def tlsMaxHandshakeLen : Nat := 65536

/-- `private_tls_alert_t`: the first fatal alert, whether it was handed out,
and the queued warnings. -/
structure TlsAlert where
  fatal : Bool
  desc : UInt8
  consumed : Bool
  warnings : List UInt8
deriving DecidableEq, Repr

/-- `tls_alert_create`. -/
def tlsAlertCreate : TlsAlert := ⟨false, 0, false, []⟩

namespace TlsAlert

/-- `add`: only the first fatal alert is kept; warnings queue up. -/
def add (alert : TlsAlert) (level desc : UInt8) : TlsAlert :=
  if level = tlsFatal then
    if alert.fatal then alert else { alert with desc := desc, fatal := true }
  else { alert with warnings := alert.warnings ++ [desc] }

/-- The alerts a layer raised through `add`, in the order it raised them. -/
def addAll (alert : TlsAlert) (alerts : List (UInt8 × UInt8)) : TlsAlert :=
  alerts.foldl (fun current raised => current.add raised.1 raised.2) alert

/-- `process`: a received close notify becomes a fatal close notify of our
own; a warning is ignored; a fatal alert and an unknown level both fail. -/
def process (alert : TlsAlert) (level desc : UInt8) : TlsAlert × Status :=
  if desc = tlsCloseNotify then (alert.add tlsFatal tlsCloseNotify, .needMore)
  else if level = tlsWarning then (alert, .needMore)
  else (alert, .failed)

@[simp] theorem add_fatal_of_not_fatal {alert : TlsAlert} (notFatal : alert.fatal = false)
    (desc : UInt8) : alert.add tlsFatal desc = { alert with desc := desc, fatal := true } := by
  simp [add, notFatal]

end TlsAlert

/-- `tls_handshake_t` as the fragmentation layer calls it. `process` also
returns the alerts the handshake raised through `alert->add`, in order. -/
structure TlsHandshake (σ : Type) where
  process : σ → UInt8 → List UInt8 → σ × List (UInt8 × UInt8) × Status
  cipherspecChanged : σ → Bool → Bool
  changeCipherspec : σ → Bool → σ
  finished : σ → Bool

/-- `tls_application_t` `process` over the record's reader: the application's
next state, the unread rest of the reader, and its status. An application that
answers NEED_MORE has read from the reader; the loop of the source would not
end otherwise. -/
structure TlsApplication (τ : Type) where
  process : τ → List UInt8 → τ × List UInt8 × Status
  consumes : ∀ application data, data ≠ [] → (process application data).2.2 = .needMore →
    (process application data).2.1.length < data.length

/-- `alert_state_t`. -/
inductive AlertState where
  | alertNone
  | alertSending
  | alertSent
deriving DecidableEq, Repr

/-- `tls_purpose_t`. -/
inductive TlsPurpose where
  | eapTls
  | eapTtls
  | eapPeap
  | generic
  | eapTnc
deriving DecidableEq, Repr

/-- A handshake message whose header has been read and whose body is still
incomplete: the input buffer of length `len`, filled up to `inpos`, with the
message type. -/
structure PendingMessage where
  type : UInt8
  len : Nat
  received : List UInt8
  received_lt : received.length < len
deriving DecidableEq, Repr

/-- `private_tls_fragmentation_t`, inbound side. The handshake, alert and
application objects it points to are held by value. -/
structure TlsFragmentation (σ τ : Type) where
  handshake : σ
  alert : TlsAlert
  state : AlertState
  applicationFinished : Bool
  input : Option PendingMessage
  application : τ
  purpose : TlsPurpose

namespace TlsFragmentation

variable {σ τ : Type}

/-- `send_close_notify`: not inside EAP, where EAP-SUCCESS ends the exchange. -/
def sendCloseNotify : TlsPurpose → Bool
  | .eapTls | .eapTtls | .eapPeap => false
  | .generic | .eapTnc => true

/-- `this->alert->add(this->alert, level, desc)`. -/
def addAlert (fragmentation : TlsFragmentation σ τ) (level desc : UInt8) : TlsFragmentation σ τ :=
  { fragmentation with alert := fragmentation.alert.add level desc }

/-- `process_alert`: a level byte and a description byte. -/
def processAlert (fragmentation : TlsFragmentation σ τ) (reader : List UInt8) :
    TlsFragmentation σ τ × Status :=
  match reader with
  | level :: description :: _ =>
      let processed := fragmentation.alert.process level description
      ({ fragmentation with alert := processed.1 }, processed.2)
  | _ => (fragmentation.addAlert tlsFatal tlsDecodeError, .needMore)

/-- `read_uint24`: a big-endian length. -/
def readUint24 (high middle low : UInt8) : Nat :=
  high.toNat * 65536 + middle.toNat * 256 + low.toNat

/-- A completely defragmented message goes to the handshake, and the input
buffer is freed. -/
def deliverMessage (handshake : TlsHandshake σ) (fragmentation : TlsFragmentation σ τ)
    (type : UInt8) (message : List UInt8) : TlsFragmentation σ τ × Status :=
  let processed := handshake.process fragmentation.handshake type message
  ({ fragmentation with
      handshake := processed.1
      alert := fragmentation.alert.addAll processed.2.1
      input := none }, processed.2.2)

/-- Copy as much of `data` into the input buffer as the message still lacks;
a complete message is delivered. -/
def fillInput (handshake : TlsHandshake σ) (fragmentation : TlsFragmentation σ τ) (type : UInt8)
    (len : Nat) (received data : List UInt8) : TlsFragmentation σ τ × Status :=
  let filled := received ++ data.take (len - received.length)
  if incomplete : filled.length < len then
    ({ fragmentation with input := some ⟨type, len, filled, incomplete⟩ }, .needMore)
  else deliverMessage handshake fragmentation type filled

/-- The end of one pass of the reassembly loop: a status other than NEED_MORE
is returned, and a fatal alert breaks the loop. -/
def afterMessage {reader : List UInt8} (filled : TlsFragmentation σ τ × Status) (rest : List UInt8)
    (shorter : rest.length < reader.length) :
    Pass (TlsFragmentation σ τ) (TlsFragmentation σ τ × List UInt8 × Status) UInt8 reader :=
  if filled.2 ≠ .needMore then .stop (filled.1, rest, filled.2)
  else if filled.1.alert.fatal then .stop (filled.1, rest, .needMore)
  else .next filled.1 rest shorter

/-- A pass that starts a new message: the type byte and the 24-bit length.
When the length does not fit, `read_uint8` has already taken the type byte. -/
def newMessage (handshake : TlsHandshake σ) (fragmentation : TlsFragmentation σ τ) :
    (reader : List UInt8) → reader ≠ [] →
      Pass (TlsFragmentation σ τ) (TlsFragmentation σ τ × List UInt8 × Status) UInt8 reader
  | type :: high :: middle :: low :: data, _ =>
      if tlsMaxHandshakeLen < readUint24 high middle low then
        .stop (fragmentation.addAlert tlsFatal tlsDecodeError, data, .needMore)
      else
        afterMessage (fillInput handshake fragmentation type (readUint24 high middle low) [] data)
          (data.drop (readUint24 high middle low)) (by simp; omega)
  | reader, _ => .stop (fragmentation.addAlert tlsFatal tlsDecodeError, reader.drop 1, .needMore)

/-- One pass of the loop of `process_handshake`. -/
def handshakePass (handshake : TlsHandshake σ) (fragmentation : TlsFragmentation σ τ)
    (reader : List UInt8) (hasData : reader ≠ []) :
    Pass (TlsFragmentation σ τ) (TlsFragmentation σ τ × List UInt8 × Status) UInt8 reader :=
  if tlsMaxFragmentLen < reader.length then
    .stop (fragmentation.addAlert tlsFatal tlsDecodeError, reader, .needMore)
  else
    match fragmentation.input with
    | none => newMessage handshake fragmentation reader hasData
    | some pending =>
        afterMessage (fillInput handshake fragmentation pending.type pending.len pending.received reader)
          (reader.drop (pending.len - pending.received.length)) (by
            have missing := pending.received_lt
            have nonempty := List.length_pos_iff.mpr hasData
            simp only [List.length_drop]
            omega)

/-- `process_handshake`: the reassembled messages of a record in order; the
result also holds what is left of the reader. -/
def processHandshake (handshake : TlsHandshake σ) (fragmentation : TlsFragmentation σ τ)
    (reader : List UInt8) : TlsFragmentation σ τ × List UInt8 × Status :=
  consumeLoop (handshakePass handshake) (fun fragmentation => (fragmentation, [], .needMore))
    fragmentation reader

/-- One pass of the loop of `process_application`. -/
def applicationPass (application : TlsApplication τ) (fragmentation : TlsFragmentation σ τ)
    (reader : List UInt8) (hasData : reader ≠ []) :
    Pass (TlsFragmentation σ τ) (TlsFragmentation σ τ × List UInt8 × Status) UInt8 reader :=
  if tlsMaxFragmentLen < reader.length then
    .stop (fragmentation.addAlert tlsFatal tlsDecodeError, reader, .needMore)
  else
    let processed := application.process fragmentation.application reader
    let consumed := { fragmentation with application := processed.1 }
    match status : processed.2.2 with
    | .needMore => .next consumed processed.2.1 (application.consumes _ _ hasData status)
    | .success =>
        -- SUCCESS falls through to the close notify unless inside EAP
        if sendCloseNotify fragmentation.purpose then
          .stop (addAlert { consumed with applicationFinished := true } tlsFatal tlsCloseNotify,
            processed.2.1, .needMore)
        else .stop ({ consumed with applicationFinished := true }, processed.2.1, .success)
    | _ => .stop (consumed.addAlert tlsFatal tlsCloseNotify, processed.2.1, .needMore)

/-- `process_application`: refused before the handshake is finished. -/
def processApplication (handshake : TlsHandshake σ) (application : TlsApplication τ)
    (fragmentation : TlsFragmentation σ τ) (reader : List UInt8) : TlsFragmentation σ τ × Status :=
  if handshake.finished fragmentation.handshake then
    let ran := consumeLoop (applicationPass application)
      (fun fragmentation => (fragmentation, [], .needMore)) fragmentation reader
    (ran.1, ran.2.2)
  else (fragmentation, .failed)

/-- `process`: the dispatch on the content type of one record. -/
def process (handshake : TlsHandshake σ) (application : TlsApplication τ)
    (fragmentation : TlsFragmentation σ τ) (type : UInt8) (data : List UInt8) :
    TlsFragmentation σ τ × Status :=
  match fragmentation.state with
  | .alertSending | .alertSent => (fragmentation, .needMore)
  | .alertNone =>
      if type = tlsChangeCipherSpec then
        if handshake.cipherspecChanged fragmentation.handshake true then
          ({ fragmentation with
              handshake := handshake.changeCipherspec fragmentation.handshake true }, .needMore)
        else (fragmentation, .failed)
      else if type = tlsAlert then processAlert fragmentation data
      else if type = tlsHandshake then
        let shaken := processHandshake handshake fragmentation data
        -- a finished handshake falls through: the rest of the record is application data
        if handshake.finished shaken.1.handshake then
          processApplication handshake application shaken.1 shaken.2.1
        else (shaken.1, shaken.2.2)
      else if type = tlsApplicationData then processApplication handshake application fragmentation data
      else (fragmentation, .needMore)

/-! What one record holding one whole handshake message, or one alert, does. -/

section Records

variable (handshake : TlsHandshake σ) (application : TlsApplication τ)

theorem processHandshake_whole_message {fragmentation : TlsFragmentation σ τ}
    (noPending : fragmentation.input = none) (type high middle low : UInt8) {body : List UInt8}
    (length : readUint24 high middle low = body.length)
    (fitsRecord : body.length + 4 ≤ tlsMaxFragmentLen) :
    processHandshake handshake fragmentation (type :: high :: middle :: low :: body) =
      ((deliverMessage handshake fragmentation type body).1, [],
        (deliverMessage handshake fragmentation type body).2) := by
  have fitsMessage : ¬ tlsMaxHandshakeLen < body.length := by
    simp only [tlsMaxHandshakeLen, tlsMaxFragmentLen] at fitsRecord ⊢
    omega
  have notTooLong : ¬ tlsMaxFragmentLen < (type :: high :: middle :: low :: body).length := by
    simp only [List.length_cons]
    omega
  have filled : fillInput handshake fragmentation type body.length [] body =
      deliverMessage handshake fragmentation type body := by
    simp [fillInput]
  unfold processHandshake
  rw [consumeLoop_of_ne_nil _ _ (List.cons_ne_nil _ _)]
  simp only [handshakePass, notTooLong, if_false, noPending, newMessage, length, fitsMessage,
    filled, afterMessage, List.drop_length]
  -- the message is delivered; the loop stops on its status or on a fatal alert, or runs out
  by_cases answered : (deliverMessage handshake fragmentation type body).2 = .needMore
  · by_cases fatal : (deliverMessage handshake fragmentation type body).1.alert.fatal = true
    · simp [answered, fatal]
    · simp [answered, fatal]
  · simp [answered]

theorem processApplication_nil {fragmentation : TlsFragmentation σ τ}
    (finished : handshake.finished fragmentation.handshake = true) :
    processApplication handshake application fragmentation [] = (fragmentation, .needMore) := by
  simp [processApplication, finished]

/-- A handshake record holding exactly one message, with no message pending,
hands that message to the handshake. -/
theorem process_whole_message {fragmentation : TlsFragmentation σ τ}
    (open_ : fragmentation.state = .alertNone) (noPending : fragmentation.input = none)
    (type high middle low : UInt8) {body : List UInt8}
    (length : readUint24 high middle low = body.length)
    (fitsRecord : body.length + 4 ≤ tlsMaxFragmentLen) :
    (process handshake application fragmentation tlsHandshake
        (type :: high :: middle :: low :: body)).1 =
      (deliverMessage handshake fragmentation type body).1 := by
  have whole := processHandshake_whole_message handshake noPending type high middle low length
    fitsRecord
  simp only [process, open_]
  rw [if_neg (by decide), if_neg (by decide)]
  simp only [↓reduceIte, whole]
  split
  · next finished => rw [processApplication_nil handshake application finished]
  · rfl

/-- An alert record goes to the alert handler. -/
theorem process_alert_record {fragmentation : TlsFragmentation σ τ}
    (open_ : fragmentation.state = .alertNone) (level description : UInt8) (rest : List UInt8) :
    process handshake application fragmentation tlsAlert (level :: description :: rest) =
      ({ fragmentation with alert := (fragmentation.alert.process level description).1 },
        (fragmentation.alert.process level description).2) := by
  simp [process, open_, tlsAlert, tlsChangeCipherSpec, processAlert]

end Records

end TlsFragmentation

end StrongSwan.Libtls
