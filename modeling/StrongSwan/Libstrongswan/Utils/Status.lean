import Mathlib

/-!
Contract: `status_t`, the return codes shared by the parsers, the payload
encryption and the message handling of the daemon.
-/

namespace StrongSwan.Libstrongswan.Utils

/-- `status_t` of `utils/utils/status.h`, in the order it declares them. -/
inductive Status where
  | success
  | failed
  | outOfRes
  | alreadyDone
  | notSupported
  | invalidArg
  | notFound
  | parseError
  | verifyError
  | invalidState
  | destroyMe
  | needMore
deriving Repr, DecidableEq

end StrongSwan.Libstrongswan.Utils
