import SpanReview.Text.Decimal

namespace SpanReview.Shell

/-!
Signals, and how a program ends: with a code of its own or by a signal.
-/

def signals : List (String × String) :=
  [ ("HUP", "Hangup"), ("INT", "Interrupt"), ("QUIT", "Quit"), ("ILL", "Illegal instruction"),
    ("TRAP", "Trace/breakpoint trap"), ("ABRT", "Aborted"), ("BUS", "Bus error"),
    ("FPE", "Floating point exception"), ("KILL", "Killed"), ("USR1", "User defined signal 1"),
    ("SEGV", "Segmentation fault"), ("USR2", "User defined signal 2"), ("PIPE", "Broken pipe"),
    ("ALRM", "Alarm clock"), ("TERM", "Terminated"), ("STKFLT", "Stack fault"),
    ("CHLD", "Child exited"), ("CONT", "Continued"), ("STOP", "Stopped (signal)"),
    ("TSTP", "Stopped"), ("TTIN", "Stopped (tty input)"), ("TTOU", "Stopped (tty output)"),
    ("URG", "Urgent I/O condition"), ("XCPU", "CPU time limit exceeded"),
    ("XFSZ", "File size limit exceeded"), ("VTALRM", "Virtual timer expired"),
    ("PROF", "Profiling timer expired"), ("WINCH", "Window changed"), ("IO", "I/O possible"),
    ("PWR", "Power failure"), ("SYS", "Bad system call")]

def lastSignal : Nat := 64

/-- The name that the shell knows a signal by. Those of real time are counted from both
ends. -/
def signalName (signal : Nat) : String :=
  if signal = 0 then "EXIT"
  else if signal = 16 ∨ signal = 32 ∨ signal = 33 then Text.natText signal
  else if signal = 34 then "RTMIN"
  else if signal = lastSignal then "RTMAX"
  else if 34 < signal ∧ signal ≤ 49 then "RTMIN+" ++ Text.natText (signal - 34)
  else if 49 < signal then "RTMAX-" ++ Text.natText (lastSignal - signal)
  else
    match signals[signal - 1]? with
    | some (name, _) => name
    | none => ""

def signal? (text : String) (least : Nat) : Option Nat :=
  match Text.natural? text.toList with
  | some n => if n ≤ lastSignal then some n else none
  | none =>
      (List.range (lastSignal + 1)).find? fun n =>
        least ≤ n && (signalName n).toUpper == text.toUpper

def meaningOf (signal : Nat) : String :=
  if 34 ≤ signal then "Real-time signal " ++ Text.natText (signal - 34)
  else
    match signals[signal - 1]? with
    | some (_, meaning) => meaning
    | none => "Unknown signal " ++ Text.natText signal

def isIgnored (signal : Nat) : Bool :=
  [0, 17, 18, 23, 28].contains signal

def isHalting (signal : Nat) : Bool :=
  19 ≤ signal && signal ≤ 22

inductive Status where
  | exited (code : Nat)
  | killed (signal : Nat)
  deriving DecidableEq, Repr

namespace Status

def message : Status → String
  | .exited code => "exit status: " ++ Text.natText code
  | .killed signal =>
      "signal: " ++ Text.natText signal ++
        match signals[signal - 1]? with
        | some (name, _) => " (SIG" ++ name ++ ")"
        | none => ""

def isSuccess (status : Status) : Bool :=
  status == .exited 0

def code : Status → Nat
  | .exited code => code
  | .killed signal => 128 + signal

def notice? : Status → Option String
  | .exited _ => none
  | .killed signal =>
      if signal = 2 ∨ signal = 13 then none else some (meaningOf signal)

end Status

structure Completed where
  status : Status
  output : ByteArray
  complaint : ByteArray

end SpanReview.Shell
