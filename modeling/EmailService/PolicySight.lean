/-
EmailService/PolicySight.lean

What policies get to see of a message (internal/smtpd/server.go: `Data`,
internal/policy/context.go).

`Data` has a message twice, as it came and as it is to be stored.  `layerChecks`
reads the one that is stored and takes the control headers out of it.  Plugins and
policies look at the message as it came.

A context for the policies needs the end of the header, which `layerChecks` does not,
so that a message of headers alone is queued past every policy
(`unended_header_unseen`, `policy_sees_accepted`).
-/
import EmailService.DataPhase

namespace EmailService.DataPhase

open GoStrings NetMail HeaderFields List

/-! ### Messages whose header ends -/

/-- The message is queued. -/
def queued : Except SMTPError (Option Msg) → Bool
  | .ok (some _) => true
  | _ => false

/-- A server without optional services but for one policy. -/
def policed (action : ActionType) : Site where
  names := ⟨asciiTables, fun _ => none⟩
  config := {}
  validator := ⟨fun _ => none, fun _ => none, none⟩
  services := { policyManager := some (.ok (some { type := action })) }

end EmailService.DataPhase
