import Mathlib.Data.String.Basic

/-!
# `orion env`

The settings of the CLI as lines for a shell to evaluate, or as JSON.
-/

namespace OrionMesh

/-- What the commands of the CLI are run with, but for the format of their output. -/
structure CliCtx where
  controller : String
  natsUrl : String
  token : Option String

/-- Characters no shell gives a meaning to. -/
def isShellSafe (c : Char) : Bool := c.isAlphanum || c ∈ ['-', '_', '.', '/', ':', '@']

/-- The text with each quote closed, escaped and opened again. -/
def escapeQuotes (s : List Char) : List Char :=
  s.flatMap fun c => if c = '\'' then ['\'', '\\', '\'', '\''] else [c]

def shellQuote (s : String) : String :=
  if s ≠ "" ∧ s.toList.all isShellSafe then s
  else String.ofList ('\'' :: (escapeQuotes s.toList ++ ['\'']))

def envPairs (ctx : CliCtx) : List (String × String) :=
  let token := ctx.token.getD ""
  [("ORION_CONTROLLER_URL", ctx.controller), ("NATS_URL", ctx.natsUrl)]
    ++ (if token = "" then [] else [("ORION_CLUSTER_TOKEN", token)])

inductive EnvOutput
  | text (lines : String)
  | json (obj : List (String × String))
  deriving DecidableEq

def shLine (p : String × String) : String := "export " ++ p.1 ++ "=" ++ shellQuote p.2

def fishLine (p : String × String) : String := "set -x " ++ p.1 ++ " " ++ shellQuote p.2

/-- `println!`, once for each line. -/
def printLines (lines : List String) : String :=
  String.ofList (lines.flatMap fun l => l.toList ++ ['\n'])

def runEnv (ctx : CliCtx) (format : String) : Except String EnvOutput :=
  if format = "sh" then .ok (.text (printLines ((envPairs ctx).map shLine)))
  else if format = "fish" then .ok (.text (printLines ((envPairs ctx).map fishLine)))
  else if format = "json" then .ok (.json (envPairs ctx))
  else .error ("unknown format: " ++ format)

example : shellQuote "it's" = "'it'\\''s'" := by decide

end OrionMesh
