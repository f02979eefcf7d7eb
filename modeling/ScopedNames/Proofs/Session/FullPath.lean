import ScopedNames.Proofs.Scope.Descent
import ScopedNames.Proofs.Session.Coherence
import ScopedNames.Proofs.Session.Meaning

set_option autoImplicit false

namespace ScopedNames

variable {τ π : Type} [LinearOrder π] {s : Session τ π} {i n q : Nat} {p own : π}
variable {a : Scope τ π} {r : Reference} {id : ScopeId} {found : Found}

namespace Session.Invariant

end Session.Invariant

namespace Session

end Session

end ScopedNames
