import SpanReview.Disk.Basic
import SpanReview.Fixture.Format

namespace SpanReview

/-!
Fixtures on disk. A fixture is written beside its place and then moved onto it, so that
its place holds either the old text or the new one.
-/

structure FixtureStore where
  root : Path
  deriving DecidableEq, Repr

namespace FixtureStore

/-- Directory of the repository, branch, stage, then the stem of the case file. -/
def pathFor (store : FixtureStore) (key : FixtureKey) : Path :=
  (((Path.join store.root key.repository.directory).join key.repository.branch).join
    key.stage.name).join (Path.stemOrSelf key.file ++ ".expected.txt")

def temporaryPath (path : Path) : Path :=
  path.withExtension "txt.tmp"

def load (store : FixtureStore) (key : FixtureKey) (disk : Disk) :
    Except FixtureError (Option Fixture) :=
  let path := store.pathFor key
  match disk.readText path with
  | .error .missing => .ok none
  | .error _ => .error (.inaccessible path)
  | .ok content =>
      match Fixture.parse key content path with
      | .error e => .error e
      | .ok fixture => .ok (some fixture)

def save (store : FixtureStore) (key : FixtureKey) (records : List (Option Span)) (disk : Disk) :
    Except FixtureError Path × Disk :=
  let path := store.pathFor key
  match disk.makeDirectoriesFor path with
  | (.error _, disk) => (.error (.inaccessible path), disk)
  | (.ok (), disk) =>
      match disk.writeText (temporaryPath path) (Fixture.textOf key records) with
      | (.error _, disk) => (.error (.inaccessible path), disk)
      | (.ok (), disk) =>
          match disk.rename (temporaryPath path) path with
          | (.error _, disk) => (.error (.inaccessible path), disk)
          | (.ok (), disk) => (.ok path, disk)

end FixtureStore

end SpanReview
