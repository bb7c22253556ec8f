/-!
# Errors

What can go wrong, with the classic number and wording of each error. An error that is raised while
a line is known names the line, and the column if that is known too. A crash is a condition the
machine has no message for: it ends what is running and shows nothing.
-/

namespace LineBasic

/-- The kinds of error. -/
inductive ErrorKind where
  | programError
  | nextWithoutFor
  | syntaxError
  | returnWithoutGosub
  | outOfData
  | illegalQuantity
  | overflow
  | outOfMemory
  | undefinedLine
  | subscriptOutOfRange
  | redimensionedArray
  | divisionByZero
  | illegalDirect
  | typeMismatch
  | stringTooLong
  | cannotContinue
  | undefinedFunction
  | lineBufferOverflow
  | forWithoutNext
  | stackOverflow
  | whileWithoutWend
  | wendWithoutWhile
  | interrupted
  | diskError
  | fileNotFound
  | fileExists
  | badFileName
  | directStatementInFile
  | networkError
  deriving DecidableEq, Repr, Inhabited

namespace ErrorKind

/-- The number of an error. -/
def code : ErrorKind → Nat
  | programError => 0
  | nextWithoutFor => 1
  | syntaxError => 2
  | returnWithoutGosub => 3
  | outOfData => 4
  | illegalQuantity => 5
  | overflow => 6
  | outOfMemory => 7
  | undefinedLine => 8
  | subscriptOutOfRange => 9
  | redimensionedArray => 10
  | divisionByZero => 11
  | illegalDirect => 12
  | typeMismatch => 13
  | stringTooLong => 15
  | cannotContinue => 17
  | undefinedFunction => 18
  | lineBufferOverflow => 23
  | forWithoutNext => 26
  | stackOverflow => 28
  | whileWithoutWend => 29
  | wendWithoutWhile => 30
  | interrupted => 0
  | diskError => 57
  | fileNotFound => 53
  | fileExists => 58
  | badFileName => 64
  | directStatementInFile => 66
  | networkError => 70

/-- The wording of an error. -/
def wording : ErrorKind → String
  | programError => "PROGRAM ERROR"
  | nextWithoutFor => "NEXT WITHOUT FOR"
  | syntaxError => "SYNTAX ERROR"
  | returnWithoutGosub => "RETURN WITHOUT GOSUB"
  | outOfData => "OUT OF DATA"
  | illegalQuantity => "ILLEGAL FUNCTION CALL"
  | overflow => "OVERFLOW"
  | outOfMemory => "OUT OF MEMORY"
  | undefinedLine => "UNDEFINED LINE"
  | subscriptOutOfRange => "SUBSCRIPT OUT OF RANGE"
  | redimensionedArray => "REDIMENSIONED ARRAY"
  | divisionByZero => "DIVISION BY ZERO"
  | illegalDirect => "ILLEGAL DIRECT"
  | typeMismatch => "TYPE MISMATCH"
  | stringTooLong => "STRING TOO LONG"
  | cannotContinue => "CAN'T CONTINUE"
  | undefinedFunction => "UNDEFINED USER FUNCTION"
  | lineBufferOverflow => "LINE BUFFER OVERFLOW"
  | forWithoutNext => "FOR WITHOUT NEXT"
  | stackOverflow => "STACK OVERFLOW"
  | whileWithoutWend => "WHILE WITHOUT WEND"
  | wendWithoutWhile => "WEND WITHOUT WHILE"
  | interrupted => "BREAK"
  | diskError => "DISK I/O ERROR"
  | fileNotFound => "FILE NOT FOUND"
  | fileExists => "FILE ALREADY EXISTS"
  | badFileName => "BAD FILE NAME"
  | directStatementInFile => "DIRECT STATEMENT IN FILE"
  | networkError => "NETWORK ERROR"

/-- The errors of disks, files and the network. -/
def isStorage : ErrorKind → Bool
  | diskError | fileNotFound | fileExists | badFileName | directStatementInFile | networkError =>
      true
  | _ => false

end ErrorKind

/-- `BasicError`: the kind of an error, a further line of explanation, and where it happened as far
as that is known. -/
structure Error where
  kind : ErrorKind
  detail : Option String := none
  line : Option Nat := none
  column : Option Nat := none
  deriving DecidableEq, Repr, Inhabited

namespace Error

/-- An error of which only the kind is known. -/
def of (kind : ErrorKind) : Error := { kind }

/-- An error at a column of a line that is not yet known. -/
def atColumn (kind : ErrorKind) (column : Nat) : Error := { kind, column := some column }

/-- An error with an explanation. -/
def withDetail (kind : ErrorKind) (detail : String) : Error := { kind, detail := some detail }

/-- `in_line`: the error placed in a line, unless its line is known already. -/
def inLine (e : Error) (line : Nat) : Error :=
  if e.line.isSome then e else { e with line := some line }

/-- `in_line` with a column: the error placed at a column of a line, unless its line is known
already. -/
def inLineAt (e : Error) (line column : Nat) : Error :=
  if e.line.isSome then e else { e with line := some line, column := some column }

/-- The error placed in a line, if there is one: the line being typed has no number. -/
def inLine? (e : Error) : Option Nat → Error
  | some line => e.inLine line
  | none => e

/-- Where the error happened, as the message says it. The column shows only if the line does. -/
def place (e : Error) : String :=
  match e.line, e.column with
  | none, _ => ""
  | some l, none => " IN " ++ toString l
  | some l, some c => " IN " ++ toString l ++ ":" ++ toString c

/-- The message of an error. -/
def message (e : Error) : String :=
  let explanation := match e.detail with
    | some d => if d.isEmpty then "" else "\n" ++ d
    | none => ""
  "?" ++ e.kind.wording ++ e.place ++ explanation

/-- `ErrorReporter.report`: the message on a line of its own when the cursor stands at the given
column. -/
def report (e : Error) (column : Nat) : String :=
  if 0 < column then "\n" ++ e.message else e.message

end Error

/-- A condition without a message. -/
inductive Crash where
  /-- a line feed inside a line -/
  | lineFeed
  /-- execution moved to a line that is gone -/
  | missingLine
  /-- a loop over a string -/
  | stringLoop
  /-- a random seed beyond the range of single precision -/
  | seedRange
  /-- a reply was asked for and none is left -/
  | endOfInput
  /-- the interrupt key, outside a running program -/
  | interruptKey
  /-- a run took more turns than it was allowed -/
  | exhausted
  /-- a settings file that is not text -/
  | unreadableSettings
  /-- a line number with more digits than are read -/
  | tooManyDigits
  /-- the integer part of an infinity -/
  | infiniteInteger
  /-- the integer part of what is not a number -/
  | noInteger
  /-- a function at a number where it has no value -/
  | outsideDomain
  /-- a null character in the name of a directory -/
  | nullCharacter
  /-- more array cells than can be counted -/
  | arrayRange
  /-- more array cells than the host has memory for -/
  | arrayMemory
  deriving DecidableEq, Repr, Inhabited

/-- What stops a computation. -/
inductive Fault where
  | error (e : Error)
  | crash (c : Crash)
  deriving DecidableEq, Repr, Inhabited

/-- A result, or an error of the given kind. -/
def fail {α : Type} (kind : ErrorKind) : Except Error α :=
  .error (.of kind)

/-- A computation that can only fail with an error, among those that can crash as well. -/
def orFault {α : Type} : Except Error α → Except Fault α
  | .ok a => .ok a
  | .error e => .error (.error e)

end LineBasic
