import SpanReview.Shell.Run
import SpanReview.Source.Command

namespace SpanReview

/-!
A host with a shell and a few small programs, outside every repository: git finds no remote
there.
-/

def Shell.programs : Programs Unit := fun program arguments input world =>
  if program == "git" && arguments.head? == some "config" then
    (some ⟨false, "exit status: 1", .empty, .empty⟩, world)
  else
    match start program arguments input world.disk with
    | none => (none, world)
    | some (completed, disk) =>
        (some ⟨completed.status.isSuccess, completed.status.message, completed.output,
          completed.complaint⟩, ⟨disk, ()⟩)

def CommandSource.nodes (source : CommandSource) (stage : Stage) (text file : String)
    (disk : Disk) : Except SourceError (List Node) × Disk :=
  let (result, world) := source.nodesWith Shell.programs stage text file ⟨disk, ()⟩
  (result, world.disk)

end SpanReview
