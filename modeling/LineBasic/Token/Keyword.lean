import LineBasic.Builtin.Basic

/-!
# Keywords

The reserved words: those of statements, those of operators, and the names of the built-in
functions.
-/

namespace LineBasic

/-- The reserved words. -/
inductive Keyword where
  | CLEAR
  | CLS
  | CONT
  | DATA
  | DEF
  | DEFDBL
  | DEFINT
  | DEFSNG
  | DEFSTR
  | DELETE
  | DIM
  | ELSE
  | END
  | ERASE
  | FOR
  | GOSUB
  | GOTO
  | IF
  | INPUT
  | LET
  | LIST
  | LOAD
  | NEW
  | NEXT
  | ON
  | PRINT
  | READ
  | REM
  | RENUM
  | RESTORE
  | RETURN
  | RUN
  | SAVE
  | STEP
  | STOP
  | SWAP
  | THEN
  | TO
  | TROFF
  | TRON
  | WEND
  | WHILE
  | FN
  | AND
  | OR
  | XOR
  | NOT
  | MOD
  | builtin (f : Builtin)
  deriving DecidableEq, Repr, Inhabited

namespace Keyword

/-- How a reserved word is written. -/
def spelling : Keyword → String
  | CLEAR => "CLEAR"
  | CLS => "CLS"
  | CONT => "CONT"
  | DATA => "DATA"
  | DEF => "DEF"
  | DEFDBL => "DEFDBL"
  | DEFINT => "DEFINT"
  | DEFSNG => "DEFSNG"
  | DEFSTR => "DEFSTR"
  | DELETE => "DELETE"
  | DIM => "DIM"
  | ELSE => "ELSE"
  | END => "END"
  | ERASE => "ERASE"
  | FOR => "FOR"
  | GOSUB => "GOSUB"
  | GOTO => "GOTO"
  | IF => "IF"
  | INPUT => "INPUT"
  | LET => "LET"
  | LIST => "LIST"
  | LOAD => "LOAD"
  | NEW => "NEW"
  | NEXT => "NEXT"
  | ON => "ON"
  | PRINT => "PRINT"
  | READ => "READ"
  | REM => "REM"
  | RENUM => "RENUM"
  | RESTORE => "RESTORE"
  | RETURN => "RETURN"
  | RUN => "RUN"
  | SAVE => "SAVE"
  | STEP => "STEP"
  | STOP => "STOP"
  | SWAP => "SWAP"
  | THEN => "THEN"
  | TO => "TO"
  | TROFF => "TROFF"
  | TRON => "TRON"
  | WEND => "WEND"
  | WHILE => "WHILE"
  | FN => "FN"
  | AND => "AND"
  | OR => "OR"
  | XOR => "XOR"
  | NOT => "NOT"
  | MOD => "MOD"
  | builtin f => f.name

/-- Every reserved word. -/
def all : List Keyword :=
  [CLEAR, CLS, CONT, DATA, DEF, DEFDBL, DEFINT, DEFSNG, DEFSTR, DELETE, DIM, ELSE, END, ERASE, FOR,
   GOSUB, GOTO, IF, INPUT, LET, LIST, LOAD, NEW, NEXT, ON, PRINT, READ, REM, RENUM, RESTORE, RETURN,
   RUN, SAVE, STEP, STOP, SWAP, THEN, TO, TROFF, TRON, WEND, WHILE, FN, AND, OR, XOR, NOT, MOD] ++
    Builtin.all.map builtin

/-- The reserved word with a spelling. -/
def ofSpelling? (word : String) : Option Keyword :=
  all.find? fun k => k.spelling = word

/-- The words of operators, which need no blank beside a name. -/
def isOperator : Keyword → Bool
  | AND | OR | XOR | NOT | MOD => true
  | _ => false

end Keyword

end LineBasic
