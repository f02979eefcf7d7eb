import ScopedNames.Text.Digit
import ScopedNames.Text.Quoted

set_option autoImplicit false

namespace ScopedNames.CommandLine

inductive Flag where
  | help
  | dumpScopes
  | noColor
  | verbose
  deriving DecidableEq

namespace Flag

def spellings : List (String × Flag) :=
  [("-h", help), ("--help", help), ("--dump-scopes", dumpScopes), ("--no-color", noColor),
    ("-v", verbose), ("--verbose", verbose)]

def ofSpelling? (spelling : String) : Option Flag := spellings.lookup spelling

def label (f : Flag) : String :=
  "/".intercalate ((spellings.filter (·.2 = f)).map (·.1))

end Flag

inductive UsageFault where
  | ambiguous (argument : String) (candidates : List String)
  | ignoredValue (flag : Flag) (value : String)
  | noFiles
  | unrecognized (arguments : List String)

def UsageFault.message : UsageFault → String
  | ambiguous argument candidates =>
    "ambiguous option: " ++ argument ++ " could match " ++ ", ".intercalate candidates
  | ignoredValue flag value =>
    "argument " ++ flag.label ++ ": ignored explicit argument " ++ Text.quote value
  | noFiles => "the following arguments are required: FILE"
  | unrecognized arguments => "unrecognized arguments: " ++ " ".intercalate arguments

inductive Tail where
  | nothing
  | letters (text : List Char)
  | value (text : List Char)

inductive Word where
  | operand (argument : String)
  | dashes
  | flag (flag : Flag) (tail : Tail)
  | unknown (argument : String)

namespace Word

def isOption : Word → Bool
  | flag _ _ | unknown _ => true
  | operand _ | dashes => false

def argument : Word → String
  | operand argument | unknown argument => argument
  | dashes => "--"
  | flag _ _ => ""

-- A line feed at the end does not count.
def isNegativeNumber (argument : List Char) : Bool :=
  match if argument.getLast? = some '\n' then argument.dropLast else argument with
  | '-' :: number =>
    let whole := number.takeWhile Text.isDigit
    match number.drop whole.length with
    | [] => !whole.isEmpty
    | '.' :: fraction => !fraction.isEmpty && fraction.all Text.isDigit
    | _ => false
  | _ => false

def splitValue (argument : List Char) : List Char × Tail :=
  let name := argument.takeWhile (· != '=')
  match argument.drop name.length with
  | _ :: value => (name, .value value)
  | [] => (name, .nothing)

def candidates (argument : List Char) : List (String × Word) :=
  match argument with
  | '-' :: '-' :: _ =>
    let (name, tail) := splitValue argument
    (Flag.spellings.filter fun (s, _) => name.isPrefixOf s.toList).map fun (s, f) =>
      (s, flag f tail)
  | '-' :: c :: rest =>
    (Flag.spellings.filter fun (s, _) => s.toList = ['-', c]).map fun (s, f) =>
      (s, flag f (.letters rest))
  | _ => []

def ofArgument (argument : String) : Except UsageFault Word :=
  let chars := argument.toList
  match chars with
  | '-' :: _ :: _ =>
    let (name, tail) := splitValue chars
    match Flag.ofSpelling? (String.ofList name) with
    | some f => .ok (flag f tail)
    | none =>
      match candidates chars with
      | [(_, word)] => .ok word
      | first :: second :: more =>
        .error (.ambiguous argument ((first :: second :: more).map (·.1)))
      | [] =>
        if isNegativeNumber chars || chars.contains ' ' then .ok (operand argument)
        else .ok (unknown argument)
  | _ => .ok (operand argument)

-- Behind two dashes there are only operands.
def ofArguments : List String → Except UsageFault (List Word)
  | [] => .ok []
  | "--" :: rest => .ok (dashes :: rest.map operand)
  | argument :: rest => do return (← ofArgument argument) :: (← ofArguments rest)

def expandLetters (f : Flag) : List Char → Except UsageFault (List Flag × Option String)
  | [] => .ok ([f], none)
  | c :: rest =>
    if c = '-' then .error (.ignoredValue f (String.ofList (c :: rest)))
    else
      match Flag.ofSpelling? (String.ofList ['-', c]) with
      | none => .ok ([f], some (String.ofList ('-' :: c :: rest)))
      | some g =>
        if rest.head? = some '=' then .error (.ignoredValue g (String.ofList rest.tail))
        else (expandLetters g rest).map fun (flags, extra) => (f :: flags, extra)

-- No flag takes a value.
def expand (f : Flag) : Tail → Except UsageFault (List Flag × Option String)
  | .nothing => .ok ([f], none)
  | .letters text => expandLetters f text
  | .value text => .error (.ignoredValue f (String.ofList text))

end Word

structure Request where
  files : List String
  dumpScopes : Bool
  noColor : Bool
  verbose : Bool

structure Reading where
  files : Option (List String)
  flags : List Flag
  leftOver : List String

namespace Reading

-- The first run of operands are the files; later ones are left over.
def addOperands (r : Reading) (run : List Word) : Reading :=
  let written := run.map (·.argument)
  if r.files.isNone && run.any fun word => word matches .operand _ then
    { r with
      files := some <| match run.findIdx? fun word => word matches .dashes with
        | some i => written.eraseIdx i
        | none => written }
  else { r with leftOver := r.leftOver ++ written }

def addWords (r : Reading) (words : List Word) : Except UsageFault (Option Reading) :=
  match words with
  | [] => .ok (some r)
  | .unknown argument :: rest => addWords { r with leftOver := r.leftOver ++ [argument] } rest
  | .flag f tail :: rest => do
    let (flags, extra) ← Word.expand f tail
    if flags.contains .help then return none
    else
      addWords { r with flags := r.flags ++ flags, leftOver := r.leftOver ++ extra.toList } rest
  | word :: rest =>
    addWords (r.addOperands (word :: rest.takeWhile (!·.isOption))) (rest.dropWhile (!·.isOption))
termination_by words.length
decreasing_by
  all_goals simp only [List.length_cons]
  · omega
  · omega
  · have := (List.dropWhile_suffix (l := rest) (!·.isOption)).length_le
    omega

end Reading

def Request.ofArguments (arguments : List String) : Except UsageFault (Option Request) := do
  let words ← Word.ofArguments arguments
  match ← Reading.addWords ⟨none, [], []⟩ words with
  | none => return none
  | some r =>
    match r.files with
    | none => .error .noFiles
    | some files =>
      if r.leftOver.isEmpty then
        return some ⟨files, r.flags.contains .dumpScopes, r.flags.contains .noColor,
          r.flags.contains .verbose⟩
      else .error (.unrecognized r.leftOver)

end ScopedNames.CommandLine
