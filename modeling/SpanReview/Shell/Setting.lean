namespace SpanReview.Shell

/-!
The options of a shell, in the order in which they are listed.
-/

inductive Setting where
  | errexit
  | noglob
  | ignoreeof
  | interactive
  | monitor
  | noexec
  | stdin
  | xtrace
  | verbose
  | vi
  | emacs
  | noclobber
  | allexport
  | notify
  | nounset
  | privileged
  | nolog
  | debug
  deriving DecidableEq, Repr

namespace Setting

def all : List Setting :=
  [.errexit, .noglob, .ignoreeof, .interactive, .monitor, .noexec, .stdin, .xtrace, .verbose, .vi,
    .emacs, .noclobber, .allexport, .notify, .nounset, .privileged, .nolog, .debug]

def name : Setting → String
  | .errexit => "errexit"
  | .noglob => "noglob"
  | .ignoreeof => "ignoreeof"
  | .interactive => "interactive"
  | .monitor => "monitor"
  | .noexec => "noexec"
  | .stdin => "stdin"
  | .xtrace => "xtrace"
  | .verbose => "verbose"
  | .vi => "vi"
  | .emacs => "emacs"
  | .noclobber => "noclobber"
  | .allexport => "allexport"
  | .notify => "notify"
  | .nounset => "nounset"
  | .privileged => "privileged"
  | .nolog => "nolog"
  | .debug => "debug"

def letter? : Setting → Option Char
  | .errexit => some 'e'
  | .noglob => some 'f'
  | .ignoreeof => some 'I'
  | .interactive => some 'i'
  | .monitor => some 'm'
  | .noexec => some 'n'
  | .stdin => some 's'
  | .xtrace => some 'x'
  | .verbose => some 'v'
  | .vi => some 'V'
  | .emacs => some 'E'
  | .noclobber => some 'C'
  | .allexport => some 'a'
  | .notify => some 'b'
  | .nounset => some 'u'
  | .privileged => some 'p'
  | .nolog => none
  | .debug => none

def ofLetter? (letter : Char) : Option Setting :=
  all.find? fun setting => setting.letter? == some letter

def ofName? (name : String) : Option Setting :=
  all.find? fun setting => setting.name == name

def rival? : Setting → Option Setting
  | .vi => some .emacs
  | .emacs => some .vi
  | _ => none

def letters (on : List Setting) : String :=
  String.ofList ((all.reverse.filter on.contains).filterMap letter?)

def listing (on : List Setting) : String :=
  "Current option settings\n" ++ "".intercalate (all.map fun setting =>
    let padding := String.ofList (List.replicate (16 - setting.name.length) ' ')
    setting.name ++ padding ++ (if on.contains setting then "on" else "off") ++ "\n")

def commands (on : List Setting) : String :=
  "".intercalate (all.map fun setting =>
    "set " ++ (if on.contains setting then "-o " else "+o ") ++ setting.name ++ "\n")

end Setting

end SpanReview.Shell
