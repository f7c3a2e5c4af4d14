import SpanReview.Shell.Glyph

namespace SpanReview.Shell

/-!
Directories that belong to someone. A word that starts with a tilde and the name of a user
stands for the home of that user.
-/

def homes : List (String × String) :=
  [ ("root", "/root"), ("daemon", "/usr/sbin"), ("bin", "/bin"), ("sys", "/dev"),
    ("sync", "/bin"), ("games", "/usr/games"), ("man", "/var/cache/man"),
    ("lp", "/var/spool/lpd"), ("mail", "/var/mail"), ("news", "/var/spool/news"),
    ("uucp", "/var/spool/uucp"), ("proxy", "/bin"), ("www-data", "/var/www"),
    ("backup", "/var/backups"), ("list", "/var/list"), ("irc", "/run/ircd"),
    ("_apt", "/nonexistent"), ("nobody", "/nonexistent") ]

/-- The name behind a tilde, up to a slash, to a colon if names are in a list, or to the end
of the word; none if some of it is not bare. -/
def loginName? (inList : Bool) : Word → Option (List Char)
  | [] => some []
  | .char .bare c :: rest =>
      if c = '/' ∨ (inList ∧ c = ':') then some []
      else (loginName? inList rest).map (c :: ·)
  | _ :: _ => none

/-- The home that a tilde with a name behind it stands for; `own` is that of the user. -/
def homeOf? (own : Option String) (name : List Char) : Option String :=
  if name.isEmpty then own else homes.lookup (String.ofList name)

end SpanReview.Shell
