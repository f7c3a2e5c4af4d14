import SpanReview.Text.Blank

namespace SpanReview

/-!
The repository whose producers are reviewed, and the directory its fixtures go to.
-/

structure Repository where
  url : String
  branch : String
  deriving DecidableEq, Repr

namespace Repository

def isWord (c : Char) : Bool :=
  ('a' ≤ c && c ≤ 'z') || ('A' ≤ c && c ≤ 'Z') || ('0' ≤ c && c ≤ '9') || c == '_' || c == '-'

def afterHost? (url : List Char) : Option (List Char) :=
  (Text.afterHead? "https://github.com/" url).or (Text.afterHead? "git@github.com:" url)

def ownerAndName? (path : List Char) : Option (List Char × List Char) :=
  let path := Text.dropTrailing (· == '/') path
  let path := (Text.beforeTail? ".git" path).getD path
  match path.splitOn '/' with
  | [owner, name] => if owner.isEmpty || name.isEmpty then none else some (owner, name)
  | _ => none

/-- Every character that is not part of a word becomes a dash; dashes in a row become one. -/
def slugOf (url : List Char) : List Char :=
  let dashed := url.foldl (fun slug c =>
    let c := if isWord c then c else '-'
    if c == '-' && slug.head? == some '-' then slug else c :: slug) []
  Text.dropTrailing (· == '-') (dashed.reverse.dropWhile (· == '-'))

def directoryOf (url : String) : String :=
  match (afterHost? url.toList).bind ownerAndName? with
  | some (owner, name) => String.ofList (owner ++ '-' :: name)
  | none =>
      let slug := slugOf url.toList
      if slug.isEmpty then "unknown" else String.ofList slug

def directory (repository : Repository) : String :=
  directoryOf repository.url

end Repository

end SpanReview
