/-
Whether a validated allowlist admits no more than the managed one. Validation and
enforcement read a pattern with two parsers, and do not always read it alike. Under a
managed `*.example.com` the entry `*:.example.com` is a subdomain to the one and `*` to
the other, and admits every host (`port_hides_wildcard`).

Source: network-proxy/src/policy.rs and state.rs.
-/
import Codex.NetworkPolicyFacts
import Mathlib.Data.List.Infix

namespace Codex.NetworkProxy

open Text

variable {Hook : Type} {L : Libraries Hook}

/-! ## What globs match -/

def DomainPattern.domain : DomainPattern → Text
  | .apexAndSubdomains domain | .subdomainsOnly domain | .exact domain => domain

/-- The pattern as `allows` compares it. -/
def DomainPattern.normalized : DomainPattern → DomainPattern
  | .apexAndSubdomains domain => .apexAndSubdomains (normalizeDomain domain)
  | .subdomainsOnly domain => .subdomainsOnly (normalizeDomain domain)
  | .exact domain => .exact (normalizeDomain domain)

end Codex.NetworkProxy
