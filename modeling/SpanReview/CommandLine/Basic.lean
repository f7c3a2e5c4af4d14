import SpanReview.CommandLine.Review
import SpanReview.Shell.Programs

namespace SpanReview.CommandLine

/-!
Runs on a disk alone, with the programs that are modelled, over an input that is known
beforehand.
-/

def run (invocation : Invocation) (color : Bool) (disk : Disk) (lines : List String) :
    Finished Unit :=
  review Shell.programs invocation color ⟨disk, ()⟩ (lines.map .line)

end SpanReview.CommandLine
