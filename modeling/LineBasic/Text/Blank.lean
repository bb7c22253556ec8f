/-!
# White space

The blanks of a text are the characters with the Unicode property White_Space together with the four
information separators. A text is trimmed of them on either side, and cut at them into fields.
-/

namespace LineBasic.Text

/-- A character that separates words: tab to carriage return, the information separators, the space,
and the wider spaces and separators of Unicode. -/
def isBlank (c : Char) : Bool :=
  let n := c.toNat
  (0x09 ≤ n && n ≤ 0x0D) || (0x1C ≤ n && n ≤ 0x20) || n == 0x85 || n == 0xA0 || n == 0x1680 ||
    (0x2000 ≤ n && n ≤ 0x200A) || n == 0x2028 || n == 0x2029 || n == 0x202F || n ==
      0x205F || n == 0x3000

/-- The text without the characters at its front that satisfy `p`. -/
def dropFront (p : Char → Bool) (s : String) : String :=
  String.ofList (s.toList.dropWhile p)

/-- The characters without those at the end that satisfy `p`. -/
def dropEnd (p : Char → Bool) (cs : List Char) : List Char :=
  (cs.reverse.dropWhile p).reverse

/-- The characters without blanks on either side. -/
def trim (cs : List Char) : List Char :=
  dropEnd isBlank (cs.dropWhile isBlank)

/-- The text without blanks on either side. -/
def strip (s : String) : String :=
  String.ofList (trim s.toList)

/-- Every character is a blank. -/
def isAllBlank (s : String) : Bool :=
  s.toList.all isBlank

/-- Splits off the fields between runs of blanks; `field` holds the characters of the field being
read, last first. -/
def fieldsFrom (field : List Char) : List Char → List String
  | [] => if field.isEmpty then [] else [String.ofList field.reverse]
  | c :: cs =>
    if isBlank c then
      if field.isEmpty then fieldsFrom [] cs else String.ofList field.reverse :: fieldsFrom [] cs
    else fieldsFrom (c :: field) cs

/-- The fields of a text: its maximal runs without blanks, in order. -/
def fields (s : String) : List String :=
  fieldsFrom [] s.toList

end LineBasic.Text
