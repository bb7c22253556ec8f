import LineBasic.Text.Quoted

/-!
# UTF-8

Bytes to text. A byte sequence that is no UTF-8 is refused with the place of the first fault and its
kind.
-/

namespace LineBasic.Text

/-- What is wrong with a byte sequence. -/
inductive Utf8Reason where
  | start
  | continuation
  | truncated

/-- The wording of a fault. -/
def Utf8Reason.message : Utf8Reason → String
  | .start => "invalid start byte"
  | .continuation => "invalid continuation byte"
  | .truncated => "unexpected end of data"

/-- A fault in UTF-8: the bytes from `first` to `last` cannot be read, the first of them being
`byte`. -/
structure Utf8Error where
  first : Nat
  last : Nat
  byte : UInt8
  reason : Utf8Reason

/-- The wording of a decoding fault. -/
def Utf8Error.message (e : Utf8Error) : String :=
  let subject :=
    if e.first = e.last then "byte 0x" ++ smallHex 2 e.byte.toNat ++ " in position " ++
      toString e.first
    else "bytes in position " ++ toString e.first ++ "-" ++ toString e.last
  "'utf-8' codec can't decode " ++ subject ++ ": " ++ e.reason.message

/-- What a leading byte asks for: the bits it gives, the number of bytes that follow, and the least
and greatest value of the first of these. -/
structure Utf8Lead where
  bits : Nat
  more : Nat
  low : Nat
  high : Nat

/-- The meaning of a leading byte; none if no sequence starts with it. -/
def utf8Lead? (b : UInt8) : Option Utf8Lead :=
  let n := b.toNat
  if n < 0x80 then some ⟨n, 0, 0, 0⟩
  else if n < 0xC2 then none
  else if n < 0xE0 then some ⟨n - 0xC0, 1, 0x80, 0xBF⟩
  else if n < 0xF0 then some ⟨n - 0xE0, 2, if n = 0xE0 then 0xA0 else 0x80,
    if n = 0xED then 0x9F else 0xBF⟩
  else if n < 0xF5 then some ⟨n - 0xF0, 3, if n = 0xF0 then 0x90 else 0x80,
    if n = 0xF4 then 0x8F else 0xBF⟩
  else none

/-- Reads `more` continuation bytes after the `seen` bytes of a sequence that starts at
`position`. -/
def utf8Tail (position : Nat) (lead : UInt8) (seen : Nat) (bits low high : Nat) :
    Nat → List UInt8 → Except Utf8Error Char
  | 0, _ => .ok (Char.ofNat bits)
  | _ + 1, [] => .error ⟨position, position + seen - 1, lead, .truncated⟩
  | more + 1, b :: bs =>
    if low ≤ b.toNat && b.toNat ≤ high then
      utf8Tail position lead (seen + 1) (bits * 64 + b.toNat % 64) 0x80 0xBF more bs
    else .error ⟨position, position + seen - 1, lead, .continuation⟩

/-- Reads the bytes from `position` on. -/
def utf8From (position : Nat) : List UInt8 → Except Utf8Error (List Char)
  | [] => .ok []
  | b :: bs =>
    match utf8Lead? b with
    | none => .error ⟨position, position, b, .start⟩
    | some lead => do
      let c ← utf8Tail position b 1 lead.bits lead.low lead.high lead.more bs
      let rest ← utf8From (position + 1 + lead.more) (bs.drop lead.more)
      return c :: rest
termination_by bs => bs.length
decreasing_by
  simp only [List.length_cons, List.length_drop]
  omega

/-- The text that bytes spell in UTF-8. -/
def utf8? (bytes : ByteArray) : Except Utf8Error String :=
  (utf8From 0 bytes.toList).map String.ofList

end LineBasic.Text
