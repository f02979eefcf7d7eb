import ScopedNames.Dialect.Unit

set_option autoImplicit false

namespace ScopedNames.Dialect

variable {σ : Type}

def QualifiedName.inspect (q : QualifiedName σ) : String :=
  "QualifiedName(" ++ Text.quote q.render ++ ")"

def ArgumentValue.inspect : ArgumentValue σ → String
  | int n => n.repr
  | bool b => Value.boolText b
  | name q => q.inspect

def Argument.inspect (a : Argument σ) : String :=
  "AttributeArgument(" ++ a.value.inspect ++ ")"

def Attribute.inspect (a : Attribute σ) : String :=
  "Attribute(" ++ Text.quote a.fullName ++ ", [" ++
    Value.joinItems (a.arguments.map Argument.inspect) ++ "])"

def PathSegment.inspect (s : PathSegment σ) : String :=
  "NamespaceSegment(" ++ Text.quote s.name ++ ", inline=" ++ Value.boolText s.isInline ++ ")"

end ScopedNames.Dialect
