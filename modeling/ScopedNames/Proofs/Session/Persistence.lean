import ScopedNames.Proofs.Scope.Inside
import ScopedNames.Proofs.Scope.Persistence
import ScopedNames.Proofs.Session.FullPath
import ScopedNames.Proofs.Session.Opening

set_option autoImplicit false

namespace ScopedNames

variable {τ π : Type} [LinearOrder π] {s : Session τ π} {r : Reference} {p p' : π}
variable {found : Found} {id : ScopeId} {i j q number : Nat}

namespace Session

end Session

end ScopedNames
