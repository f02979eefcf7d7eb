import ScopedNames.Proofs.Session.Run

set_option autoImplicit false

namespace ScopedNames.Session

variable {τ π : Type} [LT π] [DecidableLT π] {s : Session τ π} {e : Event τ π} {c : Call τ π}

end ScopedNames.Session
