import SpanReview.Shell.Machine

namespace SpanReview.Shell

/-!
Opening files by name. Some names stand for descriptors that are open already.
-/

inductive OpenFault where
  | fault (fault : Fault) (creates : Bool)
  | noDevice (creates : Bool)
  deriving DecidableEq, Repr

abbrev Opened := Except OpenFault Nat

def Access.creates (access : Access) : Bool :=
  access != .read

def Access.reads (access : Access) : Bool :=
  access == .read || access == .update

def Access.writes (access : Access) : Bool :=
  access != .read

def descriptorNamed? (name : String) : Option Nat :=
  match name with
  | "/dev/stdin" => some 0
  | "/dev/stdout" => some 1
  | "/dev/stderr" => some 2
  | name =>
      match ["/dev/fd/", "/proc/self/fd/"].find? fun directory => name.startsWith directory with
      | some directory => Text.natural? (name.toList.drop directory.length)
      | none => none

def openFile (access : Access) (place : Location) (content : ByteArray) : Run Opened := do
  let openFor (reads writes appends : Bool) (content : ByteArray) : Run Opened := do
    let machine ← get
    let (done, world) := machine.world.put place content
    set { machine with world := world }
    match done with
    | .ok () => return .ok (← addFile (.file place 0 reads writes appends))
    | .error fault => return .error (.fault fault true)
  match access with
  | .read => return .ok (← addFile (.file place 0 true false false))
  | .write => openFor false true false ByteArray.empty
  | .replace => openFor false true false ByteArray.empty
  | .append => openFor false true true content
  | .update => openFor true true false content

def openPlace (access : Access) (place : Location) : Run Opened := do
  let machine ← get
  let keeps := access == .write && machine.has .noclobber
  match device? place with
  | some .terminal => return .error (.noDevice (access.creates && !keeps))
  | some device => return .ok (← addFile (.device device access.reads access.writes))
  | none =>
      match machine.world.entry? place with
      | some .directory =>
          if access = .read then return .ok (← addFile .directory)
          else return .error (.fault .isDirectory !keeps)
      | some (.file content) =>
          if keeps then return .error (.fault .occupied true)
          else openFile access place content
      | none =>
          if access = .read then return .error (.fault .missing false)
          else openFile access place ByteArray.empty

def openDescriptor (access : Access) (descriptor : Nat) : Run Opened := do
  match ← descriptor? descriptor with
  | none => return .error (.fault .missing access.creates)
  | some index =>
      match (← get).world.file index with
      | .file place _ _ _ _ => openPlace access place
      | .stream number _ _ => return .ok (← addFile (.stream number access.reads access.writes))
      | .device device _ _ => return .ok (← addFile (.device device access.reads access.writes))
      | .directory =>
          if access = .read then return .ok index
          else return .error (.fault .isDirectory true)

def namesDirectory (path : String) : Bool :=
  match path.toList.reverse.span (· == '/') with
  | ([], _) => false
  | (_, rest) => rest.takeWhile (· != '/') != ['.']

def openNamed (access : Access) (name : String) : Run Opened := do
  match descriptorNamed? name with
  | some descriptor => openDescriptor access descriptor
  | none =>
      let machine ← get
      match machine.world.locate machine.place name with
      | .error fault => return .error (.fault fault access.creates)
      | .ok place =>
          let refused (fault : Fault) : Run Opened := do
            let makes := access.creates && namesDirectory name
            return .error (.fault (if makes then .isDirectory else fault) access.creates)
          match Path.endsAtDirectory name, machine.world.entry? place with
          | true, some (.file _) => refused .notDirectory
          | true, none => refused .missing
          | _, _ => openPlace access place

end SpanReview.Shell
