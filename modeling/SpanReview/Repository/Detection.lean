import SpanReview.Repository
import SpanReview.Source.Program
import SpanReview.Text.Utf8

namespace SpanReview

/-!
The repository that the working directory belongs to, as git tells it.
-/

inductive RepositoryError where
  | notStarted
  | failed (command complaint : String)
  | noRemote
  deriving DecidableEq, Repr

def RepositoryError.message : RepositoryError → String
  | .notStarted => "failed to run git"
  | .failed command complaint => "`git " ++ command ++ "` failed: " ++ complaint
  | .noRemote => "repository has no remote.origin.url"

namespace Repository

def answerOf (completed : Completed) : String :=
  String.ofList ((Text.decodeLossy completed.output).toList.filter fun c => !Text.isBlank c)

/-- What git answers. Asking for a setting that is not there fails without an answer; that is
the answer then. -/
def ask (programs : Programs σ) (command : List String) (world : World σ) :
    Except RepositoryError String × World σ :=
  match programs "git" command "" world with
  | (none, world) => (.error .notStarted, world)
  | (some completed, world) =>
      let answer := answerOf completed
      if completed.isSuccess || (command.head? == some "config" && answer.isEmpty) then
        (.ok answer, world)
      else
        (.error (.failed (" ".intercalate command)
          (Text.trim (Text.decodeLossy completed.complaint))), world)

def detect (programs : Programs σ) (world : World σ) :
    Except RepositoryError Repository × World σ :=
  match ask programs ["config", "--get", "remote.origin.url"] world with
  | (.error e, world) => (.error e, world)
  | (.ok url, world) =>
      if url.isEmpty then (.error .noRemote, world)
      else
        match ask programs ["rev-parse", "--abbrev-ref", "HEAD"] world with
        | (.error e, world) => (.error e, world)
        | (.ok branch, world) => (.ok ⟨url, branch⟩, world)

end Repository

end SpanReview
