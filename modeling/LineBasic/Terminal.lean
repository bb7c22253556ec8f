/-!
# The terminal

What the machine has shown and asked for, and the replies that wait to be read. A request to break
may arrive while the machine writes.
-/

namespace LineBasic

/-- Something that happened at the terminal. -/
inductive Event where
  | text (s : String)
  | clear
  /-- a line was asked for -/
  | prompt (s : String)
  | shutdown
  deriving DecidableEq, Repr, Inhabited

/-- What the person at the terminal does when a line is asked for. -/
inductive Reply where
  | line (s : String)
  /-- presses the interrupt key instead -/
  | interrupt
  deriving DecidableEq, Repr, Inhabited

/-- A request to break that arrives during the write with the given number. -/
inductive BreakRequest where
  /-- is kept for the next statement, whatever the machine does -/
  | signal (write : Nat)
  /-- is kept for the next statement if a program runs, and else abandons what is being done -/
  | key (write : Nat)
  deriving DecidableEq, Repr, Inhabited

/-- The number of the write during which the request arrives. -/
def BreakRequest.write : BreakRequest → Nat
  | signal n | key n => n

/-- The state of the terminal. -/
structure Terminal where
  /-- the last one first -/
  events : List Event := []
  replies : List Reply := []
  /-- writes and cleared screens so far -/
  writes : Nat := 0
  request : Option BreakRequest := none
  deriving Inhabited

namespace Terminal

/-- The terminal after a text was written. -/
def write (t : Terminal) (s : String) : Terminal :=
  { t with events := .text s :: t.events, writes := t.writes + 1 }

/-- The request that arrives with the last write, if it does. -/
def arrived (t : Terminal) : Option BreakRequest :=
  t.request.filter fun r => r.write = t.writes

/-- The terminal after its screen was cleared. -/
def clear (t : Terminal) : Terminal :=
  { t with events := .clear :: t.events, writes := t.writes + 1 }

/-- The terminal after a line was asked for, and the reply if there is one. -/
def ask (t : Terminal) (prompt : String) : Option Reply × Terminal :=
  let t := { t with events := .prompt prompt :: t.events }
  match t.replies with
  | [] => (none, t)
  | r :: rest => (some r, { t with replies := rest })

/-- The terminal after it was shut down. -/
def shutdown (t : Terminal) : Terminal := { t with events := .shutdown :: t.events }

/-- The terminal with nothing on it, the same replies waiting, and a new request to break. -/
def fresh (t : Terminal) (request : Option BreakRequest) : Terminal :=
  { replies := t.replies, request }

end Terminal

/-- `_advance_column`: the column after a text that starts at a column. A line feed begins a new
line. -/
def advanceColumn (column : Nat) (s : String) : Nat :=
  let after := s.toList.reverse.takeWhile (· != '\n')
  if after.length = s.length then column + s.length else after.length

end LineBasic
