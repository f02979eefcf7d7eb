import ScopedNames.Dump.Implicit
import ScopedNames.Text.Quoted

set_option autoImplicit false

namespace ScopedNames.Yaml

def isBreak (c : Char) : Bool := c ∈ ['\n', '\u0085', '\u2028', '\u2029']

def isSpaceOrBreak (c : Char) : Bool := isBreak c || c ∈ ['\x00', ' ', '\t', '\r']

def isSpecial (c : Char) : Bool :=
  let n := c.toNat
  !(c = '\n' || (0x20 ≤ n && n ≤ 0x7E) || n = 0x85 || (0xA0 ≤ n && n ≤ 0xFFFD && n ≠ 0xFEFF) ||
    (0x10000 ≤ n && n < 0x10FFFF))

def endsPlain : List Char → Bool
  | [] => true
  | c :: _ => isSpaceOrBreak c

-- Marks that mean something to a reader, given the character in front.
def hasInnerMark : Char → List Char → Bool
  | _, [] => false
  | before, c :: rest =>
    (c = ':' && endsPlain rest) || (c = '#' && isSpaceOrBreak before) || hasInnerMark c rest

def leadingMarks : List Char := "#,[]\x7b\x7d&*!|>'\"%@`".toList

def hasMark : List Char → Bool
  | [] => false
  | text@(c :: rest) =>
    leadingMarks.contains c || (c ∈ ['?', ':', '-'] && endsPlain rest) || hasInnerMark c rest ||
      "---".toList.isPrefixOf text || "...".toList.isPrefixOf text

def hasPair (first second : Char → Bool) : List Char → Bool
  | a :: b :: rest => (first a && second b) || hasPair first second (b :: rest)
  | _ => false

inductive Style where
  | plain
  | single
  | double
  deriving DecidableEq, Repr

def isSpace (c : Char) : Bool := c = ' '

def chooseStyle (text : List Char) : Style :=
  let spoiled := text.any isSpecial || hasPair isSpace isBreak text || hasPair isBreak isSpace text
  let edges := text.head?.any isSpace || text.getLast?.any isSpace
  if readsAsText text && !spoiled && !edges && !text.any isBreak && !hasMark text then .plain
  else if !spoiled then .single
  else .double

def width : Nat := 80

def newLine (indent : Nat) : List Char := '\n' :: List.replicate indent ' '

def stretches (text : List Char) : List (List Char) :=
  text.splitBy fun a b => isSpace a == isSpace b && isBreak a == isBreak b

-- A single space behind the margin turns into a new line.
def writePlain (indent column : Nat) : List (List Char) → List Char
  | [] => []
  | stretch :: rest =>
    if stretch = [' '] && width < column then newLine indent ++ writePlain indent indent rest
    else stretch ++ writePlain indent (column + stretch.length) rest

def doubleApostrophes (text : List Char) : List Char :=
  text.flatMap fun c => if c = '\'' then ['\'', '\''] else [c]

def writeSingle (indent column : Nat) (isFirst : Bool) : List (List Char) → List Char
  | [] => []
  | stretch :: rest =>
    if stretch = [' '] && width < column && !isFirst && !rest.isEmpty then
      newLine indent ++ writeSingle indent indent false rest
    else if stretch.any isBreak then
      -- One line feed alone would be read as a space.
      (if stretch.head? = some '\n' then ['\n'] else []) ++ stretch ++
        List.replicate indent ' ' ++ writeSingle indent indent false rest
    else
      let written := doubleApostrophes stretch
      written ++ writeSingle indent (column + written.length) false rest

def shortEscapes : List (Char × Char) :=
  [('\x00', '0'), ('\x07', 'a'), ('\x08', 'b'), ('\t', 't'), ('\n', 'n'), ('\x0b', 'v'),
    ('\x0c', 'f'), ('\r', 'r'), ('\x1b', 'e'), ('"', '"'), ('\\', '\\'), ('\u0085', 'N'),
    ('\u2028', 'L'), ('\u2029', 'P')]

def upperHex (width n : Nat) : List Char := (Text.hexDigits width n).map Char.toUpper

def escape? (c : Char) : Option (List Char) :=
  let n := c.toNat
  match shortEscapes.lookup c with
  | some short => some ['\\', short]
  | none =>
    if (0x20 ≤ n && n ≤ 0x7E) || (0xA0 ≤ n && n ≤ 0xFFFD && n ≠ 0xFEFF) then none
    else if n ≤ 0xFF then some ('\\' :: 'x' :: upperHex 2 n)
    else if n ≤ 0xFFFF then some ('\\' :: 'u' :: upperHex 4 n)
    else some ('\\' :: 'U' :: upperHex 8 n)

-- Between its ends a text may be broken in front of a space or next to an escape; a space that
-- begins a line needs a backslash.
def writeDouble (indent column : Nat) (isFirst afterEscape : Bool) : List Char → List Char
  | [] => []
  | c :: rest =>
    let isInner := !isFirst && !rest.isEmpty
    match escape? c with
    | some written =>
      let column := column + written.length
      if isInner && width + 1 < column then
        let guard := if rest.head? = some ' ' then ['\\'] else []
        written ++ '\\' :: newLine indent ++ guard ++
          writeDouble indent (indent + guard.length) false true rest
      else written ++ writeDouble indent column false true rest
    | none =>
      if isInner && (c = ' ' || afterEscape) && width < column then
        let guard := if c = ' ' then ['\\'] else []
        '\\' :: newLine indent ++ guard ++
          c :: writeDouble indent (indent + guard.length + 1) false false rest
      else c :: writeDouble indent (column + 1) false false rest

def writeText (indent column : Nat) (text : List Char) : List Char :=
  match chooseStyle text with
  | .plain => writePlain indent column (stretches text)
  | .single => '\'' :: writeSingle indent (column + 1) true (stretches text) ++ ['\'']
  | .double => '"' :: writeDouble indent (column + 1) true false text ++ ['"']

end ScopedNames.Yaml
