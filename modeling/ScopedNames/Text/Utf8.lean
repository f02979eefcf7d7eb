set_option autoImplicit false

namespace ScopedNames.Text

inductive Utf8Error where
  | startByte
  | continuationByte
  | truncated

def Utf8Error.text : Utf8Error → String
  | startByte => "invalid start byte"
  | continuationByte => "invalid continuation byte"
  | truncated => "unexpected end of data"

-- The bytes from `start` up to `stop` stand for no character; `first` is the first of them.
structure Utf8Fault where
  error : Utf8Error
  first : Nat
  start : Nat
  stop : Nat

def byteHex (n : Nat) : String :=
  let digits := Nat.toDigits 16 n
  "0x" ++ String.ofList (List.replicate (2 - digits.length) '0' ++ digits)

def Utf8Fault.message (f : Utf8Fault) : String :=
  let place :=
    if f.stop = f.start + 1 then "byte " ++ byteHex f.first ++ " in position " ++ f.start.repr
    else "bytes in position " ++ f.start.repr ++ "-" ++ (f.stop - 1).repr
  "'utf-8' codec can't decode " ++ place ++ ": " ++ f.error.text

structure Utf8Lead where
  following : Nat
  low : Nat
  high : Nat
  bits : Nat

def utf8Lead? (b : Nat) : Option Utf8Lead :=
  if 0xC2 ≤ b ∧ b ≤ 0xDF then some ⟨1, 0x80, 0xBF, b - 0xC0⟩
  else if b = 0xE0 then some ⟨2, 0xA0, 0xBF, 0⟩
  else if b = 0xED then some ⟨2, 0x80, 0x9F, 0xD⟩
  else if 0xE1 ≤ b ∧ b ≤ 0xEF then some ⟨2, 0x80, 0xBF, b - 0xE0⟩
  else if b = 0xF0 then some ⟨3, 0x90, 0xBF, 0⟩
  else if 0xF1 ≤ b ∧ b ≤ 0xF3 then some ⟨3, 0x80, 0xBF, b - 0xF0⟩
  else if b = 0xF4 then some ⟨3, 0x80, 0x8F, 4⟩
  else none

def isTail (low high b : Nat) : Bool := low ≤ b && b ≤ high

-- The bytes that can follow a lead: the first of them in its own range.
def utf8Tail (lead : Utf8Lead) (bytes : List Nat) : List Nat :=
  match bytes.take lead.following with
  | b :: more =>
    if isTail lead.low lead.high b then b :: more.takeWhile (isTail 0x80 0xBF) else []
  | [] => []

def decodeUtf8 (offset : Nat) (bytes : List Nat) : Except Utf8Fault (List Char) :=
  match bytes with
  | [] => .ok []
  | b :: rest =>
    if b < 0x80 then (decodeUtf8 (offset + 1) rest).map (Char.ofNat b :: ·)
    else
      match utf8Lead? b with
      | none => .error ⟨.startByte, b, offset, offset + 1⟩
      | some lead =>
        let tail := utf8Tail lead rest
        if tail.length = lead.following then
          let code := tail.foldl (fun n b => n * 64 + (b - 0x80)) lead.bits
          (decodeUtf8 (offset + 1 + tail.length) (rest.drop tail.length)).map (Char.ofNat code :: ·)
        else if tail.length = rest.length then
          .error ⟨.truncated, b, offset, offset + 1 + rest.length⟩
        else .error ⟨.continuationByte, b, offset, offset + 1 + tail.length⟩
termination_by bytes.length
decreasing_by all_goals simp only [List.length_cons, List.length_drop]; omega

def unifyNewlines : List Char → List Char
  | '\r' :: '\n' :: rest => '\n' :: unifyNewlines rest
  | '\r' :: rest => '\n' :: unifyNewlines rest
  | c :: rest => c :: unifyNewlines rest
  | [] => []

end ScopedNames.Text
