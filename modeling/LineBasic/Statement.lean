import LineBasic.Expr

/-!
# Statements

A line is a list of statements. IF contains statements; every other statement is a command. Each
knows the column of its first token.
-/

namespace LineBasic

/-- A line number written in a statement, with the column it is written at. -/
structure LineRef where
  line : Nat
  column : Nat
  deriving DecidableEq, Repr, Inhabited

/-- An item of PRINT. -/
inductive PrintItem where
  | value (e : Expr)
  | semicolon
  | comma
  deriving Inhabited

/-- An item of DATA, and whether it was written in quotes. -/
structure DataItem where
  text : String
  quoted : Bool
  deriving DecidableEq, Repr, Inhabited

/-- The statements that contain no others. -/
inductive Command where
  | assign (target : Target) (e : Expr)
  /-- replaces part of a string: `MID$(target, start, length) = e` -/
  | assignPart (target : Target) (start : Expr) (length : Option Expr) (e : Expr)
  | print (items : List PrintItem)
  | input (prompt : String) (targets : List Target) (question : Bool)
  | openFor (var : String) (start limit : Expr) (step : Option Expr)
  | next (var : Option String)
  | goto (ref : LineRef)
  | gosub (ref : LineRef)
  | onGoto (selector : Expr) (refs : List LineRef)
  | onGosub (selector : Expr) (refs : List LineRef)
  | leaveSub
  | dim (arrays : List (String × List Expr))
  | data (items : List DataItem)
  | read (targets : List Target)
  | restore (ref : Option LineRef)
  | finish
  | stop
  | remark (text : String)
  | openWhile (condition : Expr)
  | wend
  | define (name : String) (params : List String) (e : Expr)
  | declare (kind : Kind) (letters : List String)
  | swap (first second : Target)
  | erase (names : List String)
  | clear
  | cls
  | cont
  | traceOn
  | traceOff
  | new
  | run (ref : Option LineRef)
  | runFile (name : Expr)
  | list (first last : Option Nat)
  | delete (first last : Option Nat)
  | renumber (newStart oldStart step : Option Nat)
  | load (name : Expr)
  | save (name : Expr)
  deriving Inhabited

/-- A statement. -/
inductive Statement where
  | command (column : Nat) (c : Command)
  | branch (column : Nat) (condition : Expr) (thenPart elsePart : List Statement)
  deriving Inhabited

end LineBasic
