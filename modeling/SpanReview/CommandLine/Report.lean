import SpanReview.Engine.Navigate
import SpanReview.Json.Printer

namespace SpanReview

/-!
What the subcommands print about case files: which there are, and where their locations
are not the recorded ones.
-/

structure Listing where
  stage : Stage
  files : List String
  deriving DecidableEq, Repr

namespace Listing

def numbered (files : List String) : String :=
  String.join ((files.zipIdx).map fun (file, i) =>
    "  " ++ Text.natText (i + 1) ++ ". " ++ file ++ "\n")

def text (listing : Listing) : String :=
  "Case files for " ++ listing.stage.name ++ ":\n\n" ++ numbered listing.files ++
    "\nTotal: " ++ Text.natText listing.files.length ++ " files\n"

def toJson (listing : Listing) : Json :=
  .object [("files", .strings listing.files), ("stage", .string listing.stage.name)]

end Listing

structure FileReport where
  file : String
  count : Nat
  mismatches : List Nat
  deriving DecidableEq, Repr

namespace FileReport

/-- Positions as they are shown, from one. -/
def shown (report : FileReport) : List Nat :=
  report.mismatches.map (· + 1)

def text (report : FileReport) : String :=
  "  " ++ (if report.mismatches.isEmpty then "ok" else "!!") ++ " " ++ report.file ++ ": " ++
    Text.natText report.mismatches.length ++ " of " ++ Text.natText report.count ++
    " tokens differ\n" ++
    if report.mismatches.isEmpty then ""
    else "     at " ++ ", ".intercalate (report.shown.map Text.natText) ++ "\n"

def toJson (report : FileReport) : Json :=
  .object [("file", .string report.file), ("mismatched", .array (report.shown.map .ofNat)),
    ("tokens", .ofNat report.count)]

end FileReport

/-- The stage is told as it was asked for. -/
structure CheckReport where
  stage : String
  files : List FileReport
  deriving DecidableEq, Repr

namespace CheckReport

def total (report : CheckReport) : Nat :=
  report.files.foldr (fun file count => file.mismatches.length + count) 0

def text (report : CheckReport) : String :=
  String.join (report.files.map FileReport.text) ++ "\nTotal: " ++ Text.natText report.total ++
    " mismatches in " ++ Text.natText report.files.length ++ " files\n"

def toJson (report : CheckReport) : Json :=
  .object [("files", .array (report.files.map FileReport.toJson)),
    ("mismatches", .ofNat report.total), ("stage", .string report.stage)]

end CheckReport

namespace Engine

def checkFiles (setup : Setup σ) (engine : Engine) (world : World σ) :
    List String → Outcome σ (List FileReport)
  | [] => ⟨.ok [], engine, world⟩
  | file :: rest =>
      (engine.selectFile setup file world).andThen fun _ engine world =>
        let report : FileReport := ⟨file, engine.nodeCount, engine.mismatches⟩
        (engine.checkFiles setup world rest).andThen fun reports engine world =>
          ⟨.ok (report :: reports), engine, world⟩

def check (setup : Setup σ) (name : String) (engine : Engine) (world : World σ) :
    Outcome σ (List FileReport) :=
  (engine.selectStage setup name world).andThen fun _ engine world =>
    engine.checkFiles setup world engine.files

end Engine

end SpanReview
