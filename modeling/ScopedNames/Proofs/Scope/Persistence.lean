import ScopedNames.Proofs.Scope.Closure

set_option autoImplicit false

namespace ScopedNames.ScopeTable

variable {τ π : Type} {t : ScopeTable τ π} {visible visible' : Nat → Bool} {i j : Nat}
variable {name : String} {names : List String}

end ScopedNames.ScopeTable
