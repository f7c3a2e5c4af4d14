import SpanReview.Shell.Builtin.Directory
import SpanReview.Shell.Builtin.Getopts
import SpanReview.Shell.Builtin.Jobs
import SpanReview.Shell.Builtin.Lookup
import SpanReview.Shell.Test

namespace SpanReview.Shell.Builtin

/-!
The commands that a shell runs by itself, by their names. Those that run other commands are
not among them.
-/

def assigning : List String :=
  ["alias", "export", "local", "readonly"]

section

variable (again : Manner → Command → Run Unit)

def named? (name : String) : Option (List String → Run Unit) :=
  match name with
  | ":" => some fun _ => finish 0
  | "[" => some Test.runBracketed
  | "alias" => some defineAliases
  | "bg" => some moveJob
  | "break" => some (endLoops .left)
  | "cd" => some changeDirectory
  | "chdir" => some changeDirectory
  | "continue" => some (endLoops .resumed)
  | "echo" => some echo
  | "exit" => some exit
  | "export" => some (declare "export" (·.isExported) fun held => { held with isExported := true })
  | "false" => some fun _ => finish 1
  | "fg" => some moveJob
  | "getopts" => some getopts
  | "hash" => some hash
  | "jobs" => some showJobs
  | "kill" => some kill
  | "local" => some declareLocal
  | "printf" => some printf
  | "pwd" => some workingDirectory
  | "read" => some read
  | "readonly" =>
      some (declare "readonly" (·.isReadOnly) fun held => { held with isReadOnly := true })
  | "return" => some leave
  | "set" => some set
  | "shift" => some shift
  | "test" => some Test.run
  | "times" => some fun _ => times
  | "trap" => some trap
  | "true" => some fun _ => finish 0
  | "type" => some type
  | "ulimit" => some ulimit
  | "umask" => some umask
  | "unalias" => some dropAliases
  | "unset" => some unset
  | "wait" => some (wait again)
  | _ => none

end

end SpanReview.Shell.Builtin
