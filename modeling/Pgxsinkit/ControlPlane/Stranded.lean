/-
Which runs of requests strand no claim and deny nobody falsely.

A re-mint is judged like a subscribe, by the first of its attempts that fails; its grants come from
a token this control plane signed, so each without a scope carries a fingerprint.
-/
import Pgxsinkit.ControlPlane.Claims

namespace ControlPlane

variable {options : SubscribeOptions} {claims : Option JwtClaims} {subject : String}

/-! ### The tokens that were signed -/

section Refresh

variable {issued : List StreamTokenClaims} {token : StreamTokenClaims} {now : ℕ} {env : RefreshEnv}

end Refresh

/-! ### Runs -/

end ControlPlane
