set_option autoImplicit false

/-!
What a YAML 1.1 reader takes an unquoted text for. Text that would be read as something else than
text has to be quoted.
-/
namespace ScopedNames.Yaml

def isDigitOrScore (c : Char) : Bool := c.isDigit || c = '_'

def isHexDigitOrScore (c : Char) : Bool :=
  isDigitOrScore c || ('a' ≤ c && c ≤ 'f') || ('A' ≤ c && c ≤ 'F')

def withoutSign : List Char → List Char
  | '+' :: rest | '-' :: rest => rest
  | text => text

def isSome (p : Char → Bool) (text : List Char) : Bool := !text.isEmpty && text.all p

def isSexagesimalTail : List Char → Bool
  | ':' :: a :: b :: rest =>
    ('0' ≤ a && a ≤ '5' && b.isDigit && (rest.isEmpty || isSexagesimalTail rest)) ||
      (a.isDigit && isSexagesimalTail (b :: rest))
  | [':', a] => a.isDigit
  | _ => false

def isDecimal : List Char → Bool
  | ['0'] => true
  | c :: rest => c.isDigit && c != '0' && rest.all isDigitOrScore
  | [] => false

def isInt (text : List Char) : Bool :=
  match withoutSign text with
  | '0' :: 'b' :: digits => isSome (· ∈ ['0', '1', '_']) digits
  | '0' :: 'x' :: digits => isSome isHexDigitOrScore digits
  | '0' :: digits => digits.all fun c => ('0' ≤ c && c ≤ '7') || c = '_'
  | unsigned =>
    isDecimal unsigned ||
      (isDecimal (unsigned.takeWhile (· != ':')) &&
        isSexagesimalTail (unsigned.dropWhile (· != ':')))

def isExponent : List Char → Bool
  | [] => true
  | e :: sign :: digits => e ∈ ['e', 'E'] && sign ∈ ['+', '-'] && isSome Char.isDigit digits
  | _ => false

-- The digits behind a point, with an exponent or not.
def isFraction (text : List Char) : Bool := isExponent (text.dropWhile isDigitOrScore)

def isWhole : List Char → Bool
  | c :: rest => c.isDigit && rest.all isDigitOrScore
  | [] => false

def isFloat (text : List Char) : Bool :=
  let unsigned := withoutSign text
  let whole := unsigned.takeWhile isDigitOrScore
  String.ofList unsigned ∈ [".inf", ".Inf", ".INF"] ||
  String.ofList text ∈ [".nan", ".NaN", ".NAN"] ||
  (match text with
    | '.' :: c :: rest => c.isDigit && isFraction rest
    | _ => false) ||
  (isWhole whole &&
    match unsigned.drop whole.length with
    | '.' :: fraction => isFraction fraction
    | tail =>
      isSexagesimalTail (tail.takeWhile (· != '.')) &&
        match tail.dropWhile (· != '.') with
        | '.' :: fraction => fraction.all isDigitOrScore
        | _ => false)

def afterDigits (low high : Nat) (text : List Char) : Option (List Char) :=
  let digits := (text.take high).takeWhile Char.isDigit
  if low ≤ digits.length then some (text.drop digits.length) else none

def afterChar (c : Char) : List Char → Option (List Char)
  | d :: rest => if c = d then some rest else none
  | [] => none

def skipBlanks (text : List Char) : List Char := text.dropWhile (· ∈ [' ', '\t'])

def isZone (text : List Char) : Bool :=
  match skipBlanks text with
  | [] => text.isEmpty
  | ['Z'] => true
  | sign :: rest =>
    sign ∈ ['+', '-'] &&
      match afterDigits 1 2 rest with
      | some [] => true
      | some (':' :: minutes) => afterDigits 2 2 minutes == some []
      | _ => false

def isClock (text : List Char) : Bool :=
  let seconds := do
    let rest ← afterDigits 1 2 text
    let rest ← afterDigits 2 2 (← afterChar ':' rest)
    afterDigits 2 2 (← afterChar ':' rest)
  match seconds with
  | some ('.' :: fraction) => isZone (fraction.dropWhile Char.isDigit)
  | some rest => isZone rest
  | none => false

def isTimestamp (text : List Char) : Bool :=
  let dateOf (low : Nat) := do
    let rest ← afterDigits 4 4 text
    let rest ← afterDigits low 2 (← afterChar '-' rest)
    afterDigits low 2 (← afterChar '-' rest)
  dateOf 2 == some [] ||
  match dateOf 1 with
  | some ('T' :: clock) | some ('t' :: clock) => isClock clock
  | some (' ' :: rest) | some ('\t' :: rest) => isClock (skipBlanks rest)
  | _ => false

def constants : List String :=
  ["yes", "Yes", "YES", "no", "No", "NO", "true", "True", "TRUE", "false", "False", "FALSE",
    "on", "On", "ON", "off", "Off", "OFF", "", "~", "null", "Null", "NULL", "<<", "="]

def readsAsText (text : List Char) : Bool :=
  !(constants.contains (String.ofList text) || isInt text || isFloat text || isTimestamp text)

end ScopedNames.Yaml
