import LineBasic.Program.Renumber
import LineBasic.Text.Quoted

/-!
# Notices

What the log says about settings and programs. A notice changes nothing.
-/

namespace LineBasic

/-- A line for the log. -/
inductive Notice where
  /-- a line of the settings file without an equals sign -/
  | lineWithoutEquals (path : String) (line : Nat)
  /-- a setting that should be a number -/
  | notANumber (key value default : String)
  /-- the settings file cannot be read -/
  | unreadable (path reason : String)
  /-- a reference to a line that does not exist, found while renumbering -/
  | missingLine (ref : MissingRef)
  deriving DecidableEq, Repr, Inhabited

namespace Notice

/-- The wording of a notice, with the part of the program that it comes from. -/
def text : Notice → String
  | lineWithoutEquals path line =>
    "WARNING config: " ++ path ++ ":" ++ toString line ++ ": ignoring line without '='"
  | notANumber key value default =>
    "WARNING config: " ++ key ++ "=" ++ Text.quoted value ++ " is not a number, using " ++ default
  | unreadable path reason => "WARNING config: could not read " ++ path ++ ": " ++ reason
  | missingLine ref =>
    "WARNING program: line " ++ toString ref.line ++ " refers to missing line " ++
      toString ref.target

end Notice

end LineBasic
