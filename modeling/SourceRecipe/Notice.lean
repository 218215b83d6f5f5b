/-!
# Notices

What a build tells its user as it goes, at levels of importance.
-/

namespace SourceRecipe

inductive Level where
  | error
  | warning
  | info
  | debug
  | trace
  deriving DecidableEq

def Level.name : Level → String
  | error => "ERROR"
  | warning => "WARN"
  | info => "INFO"
  | debug => "DEBUG"
  | trace => "TRACE"

/-- The least important level shown: warnings, and one level more for each step of verbosity.
Quiet shows errors only. -/
def Level.shown (verbosity : Nat) (quiet : Bool) : Level :=
  if quiet then error
  else
    match verbosity with
    | 0 => warning
    | 1 => info
    | 2 => debug
    | _ => trace

structure Notice where
  level : Level
  text : String
  deriving DecidableEq

def Notice.line (notice : Notice) : String :=
  notice.level.name ++ ": " ++ notice.text

end SourceRecipe
