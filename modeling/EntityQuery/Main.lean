/-
EntityQuery/Main.lean

The command line.  It makes a service ready and then answers query requests
from standard input, the body of one request a line, with one reply a line.
A request on which the store gives up gets an empty line.
-/
import EntityQuery.Server.Boot
import EntityQuery.Server.Http

open EntityQuery

/-- The text of a file, if it can be read. -/
def readFile? (path : String) : IO (Option String) := do
  try return some (← IO.FS.readFile path) catch _ => return none

/-- The values of the variables that a service looks at. -/
def readEnvironment : IO Environment := do
  let pairs ← (ServerConfig.variableNames ++ Boot.remoteVariables).mapM fun name =>
    return (name, ← IO.getEnv name)
  return fun name => (pairs.lookup name).join

/-- Answer requests until the input ends. -/
partial def answerLines (service : Service.Ready) (input output : IO.FS.Stream) : IO Unit := do
  let line ← input.getLine
  unless line.isEmpty do
    let request : HttpRequest := ⟨"POST", "/graphql", some "application/json", line⟩
    output.putStrLn (match Service.reply service.executor service.store.ask? request with
      | some reply => if reply.status = 200 then reply.body else toString reply.status
      | none => "")
    output.flush
    answerLines service input output

/-- Make a service ready and let it answer. -/
def main (arguments : List String) : IO UInt32 := do
  match ← Boot.run readFile? (← readEnvironment) arguments with
  | .error e => do
    IO.eprintln e.message
    return 1
  | .ok service => do
    answerLines service (← IO.getStdin) (← IO.getStdout)
    return 0
