import SpanReview.Shell.Expand
import SpanReview.Shell.Open

namespace SpanReview.Shell

/-!
Redirections. All words but those of documents are expanded first; the files are then
opened one after another, and a command whose redirections fail is not run.
-/

inductive Prepared where
  | opened (access : Access) (name : String)
  | copied (descriptor : Option Nat)
  | document (word : Word)

def openFaultText (creates : Bool) : Fault → String
  | .isDirectory => "Is a directory"
  | .nameTooLong => "File name too long"
  | .denied => "Permission denied"
  | .occupied => "File exists"
  | _ => if creates then "Directory nonexistent" else "No such file"

def OpenFault.about (name : String) : OpenFault → String
  | .fault cause creates => attempt creates ++ openFaultText creates cause
  | .noDevice creates => attempt creates ++ "No such device or address"
where
  attempt (creates : Bool) : String :=
    "cannot " ++ (if creates then "create " else "open ") ++ name ++ ": "

def copiedDescriptor (name : String) : Run (Option Nat) := do
  let refused : Run (Option Nat) := do
    modify fun machine => { machine with line := machine.parsedLine }
    fail "Syntax error: Bad fd number"
  match name.toList with
  | ['-'] => return none
  | [c] =>
      match Text.digit? c with
      | some descriptor => return some descriptor
      | none => refused
  | _ => refused

def prepare (substitute : Command → Run String) : Redirection → Run (Nat × Prepared)
  | .mk number (.opened access name) => do
      return (number, .opened access (← expandText substitute name))
  | .mk number (.copied word) => do
      let name ← expandText substitute word
      return (number, .copied (← copiedDescriptor name))
  | .mk number (.document index) => do
      return (number, .document ((← get).documents.getD index []))

def prepareAll (substitute : Command → Run String) :
    List Redirection → Run (List (Nat × Prepared))
  | [] => return []
  | redirection :: rest => do
      let first ← prepare substitute redirection
      return first :: (← prepareAll substitute rest)

/-- A redirection that does the same, and has no words to expand but those of a document. -/
def settle (substitute : Command → Run String) (redirection : Redirection) : Run Redirection := do
  let .mk number target := redirection
  match target with
  | .document index => return .mk number (.document index)
  | _ =>
      match (← prepare substitute redirection).2 with
      | .opened access name => return .mk number (.opened access (Word.ofText name))
      | .copied (some source) =>
          return .mk number (.copied (Word.ofText (Text.natText source)))
      | _ => return .mk number (.copied (Word.ofText "-"))

inductive Opening where
  | same
  | closed
  | file (index : Nat)
  | missing (source : Nat)

def openPrepared (substitute : Command → Run String) (number : Nat) : Prepared → Run Opening
  | .opened access name => do
      match ← openNamed access name with
      | .ok index => return .file index
      | .error fault => fail (fault.about name)
  | .copied none => return .closed
  | .copied (some source) => do
      if source = number then return .same
      else
        match ← descriptor? source with
        | some index => return .file index
        | none => return .missing source
  | .document word => do
      let text ← expandDocument substitute word
      let stream ← addStream (.ofBytes (Text.bytesOfOctets text))
      return .file (← addFile (.stream stream true false))

def connectOpening (number : Nat) : Opening → Run Unit
  | .same => return
  | .closed => disconnect number
  | .file index => connect number index
  | .missing source => fail (Text.natText source ++ ": Bad file descriptor")

def applyAll (substitute : Command → Run String) (prepared : List (Nat × Prepared)) : Run Unit :=
  prepared.forM fun (number, target) => do
    connectOpening number (← openPrepared substitute number target)

structure Changed where
  number : Nat
  wasShut : Bool

/-- Takes note of whether a descriptor is shut, and of one that is changed for the first time. -/
def noteChange (number : Nat) (opening : Opening) (changed : List Changed) :
    Run (List Changed) := do
  let shut := (← get).shut
  let others := shut.filter (· != number)
  let isClosed := match opening with
    | .closed => true
    | _ => false
  modify fun machine => { machine with shut := if isClosed then number :: others else others }
  if changed.any fun change => change.number == number then return changed
  else return ⟨number, shut.contains number⟩ :: changed

/-- Makes connections that are to be undone, up to one that fails. Gives whether all were made,
and what was changed. A descriptor that is changed for the first time is closed before another
one is copied to it. -/
def redirectFrom (substitute : Command → Run String) (changed : List Changed) :
    List (Nat × Prepared) → Run (Bool × List Changed)
  | [] => return (true, changed)
  | (number, target) :: rest => do
      let opening ←
        try some <$> openPrepared substitute number target
        catch
          | .killed signal => throw (.killed signal)
          | _ => pure none
      match opening with
      | none => return (false, changed)
      | some .same => redirectFrom substitute changed rest
      | some opening =>
          let isFirst := !changed.any fun change => change.number == number
          let changed ← noteChange number opening changed
          match opening with
          | .missing source =>
              if isFirst then disconnect number
              warn (Text.natText source ++ ": Bad file descriptor")
              finish 2
              return (false, changed)
          | opening =>
              connectOpening number opening
              redirectFrom substitute changed rest

/-- Undoes changes, `wiring` being what there was before them. A descriptor that was shut is
closed, whatever it stood for. -/
def undo (wiring : List (Nat × Nat)) (changed : List Changed) : Run Unit :=
  changed.forM fun change =>
    modify fun machine =>
      let number := change.number
      let others := machine.shut.filter (· != number)
      let rest := machine.wiring.filter fun wire => wire.1 != number
      match if change.wasShut then none else wiring.lookup number with
      | some index => { machine with wiring := (number, index) :: rest, shut := others }
      | none => { machine with wiring := rest, shut := number :: others }

def withRedirections (substitute : Command → Run String) (prepared : List (Nat × Prepared))
    (action : Run Unit) : Run Bool := do
  let wiring := (← get).wiring
  let (done, changed) ← redirectFrom substitute [] prepared
  if done then action.followedBy (undo wiring changed) else undo wiring changed
  return done

/-- Runs an action with connections that are kept if it ends well. If they cannot all be made,
the first ones are kept too where errors are passed over. -/
def withLasting (substitute : Command → Run String) (passesOver : Bool)
    (prepared : List (Nat × Prepared)) (action : Run Unit) : Run Bool := do
  let wiring := (← get).wiring
  let (done, changed) ← redirectFrom substitute [] prepared
  if done then
    try action
    catch stop =>
      undo wiring changed
      throw stop
  else if !passesOver then undo wiring changed
  return done

end SpanReview.Shell
