import SpanReview.Proofs.Repository

namespace SpanReview.Repository

/-! A GitHub repository has one directory, named for its owner and itself, however its remote is
spelled. Any other remote has the directory that its slug names. -/

inductive Host where
  | https
  | ssh
  deriving DecidableEq, Repr

def Host.address : Host → String
  | https => "https://github.com/"
  | ssh => "git@github.com:"

/-- A GitHub remote as it can be spelled: the name may be marked with `.git`, and any number of
slashes may follow. -/
structure Remote where
  host : Host
  owner : String
  name : String
  isMarked : Bool
  slashes : Nat
  owner_ne : owner ≠ ""
  name_ne : name ≠ ""
  owner_noSlash : '/' ∉ owner.toList
  name_noSlash : '/' ∉ name.toList
  /-- What ends in `.git` is a name with the mark. -/
  mark_taken : ¬ isMarked → ¬ ".git".toList <:+ name.toList

theorem suffix_of_noSlash {tail front rest : List Char} (htail : '/' ∉ tail)
    (h : tail <:+ front ++ '/' :: rest) : tail <:+ rest := by
  rcases List.suffix_or_suffix_of_suffix h (List.suffix_append front ('/' :: rest)) with hin | hover
  · rcases List.suffix_cons_iff.mp hin with rfl | hrest
    · exact absurd List.mem_cons_self htail
    · exact hrest
  · exact absurd (hover.subset List.mem_cons_self) htail

namespace Remote

def lastPart (remote : Remote) : List Char :=
  if remote.isMarked then remote.name.toList ++ ".git".toList else remote.name.toList

def path (remote : Remote) : List Char :=
  (remote.owner.toList ++ '/' :: remote.lastPart) ++ List.replicate remote.slashes '/'

def url (remote : Remote) : String :=
  remote.host.address ++ String.ofList remote.path

variable (remote : Remote)

theorem toList_url : remote.url.toList = remote.host.address.toList ++ remote.path := by
  rw [url, String.toList_append, String.toList_ofList]

theorem afterHost?_url : afterHost? remote.url.toList = some remote.path := by
  rw [toList_url, afterHost?]
  cases remote.host with
  | https =>
      have hpath := Text.afterHead?_eq_some_iff.mpr
        (rfl : "https://github.com/".toList ++ remote.path = _)
      rw [Host.address, hpath, Option.some_or]
  | ssh =>
      have hnone : Text.afterHead? "https://github.com/"
          ("git@github.com:".toList ++ remote.path) = none := rfl
      have hpath := Text.afterHead?_eq_some_iff.mpr
        (rfl : "git@github.com:".toList ++ remote.path = _)
      rw [Host.address, hnone, hpath, Option.none_or]

theorem lastPart_ne_nil : remote.lastPart ≠ [] := by
  unfold lastPart
  split <;> simp [remote.name_ne]

theorem lastPart_noSlash : '/' ∉ remote.lastPart := by
  unfold lastPart
  split
  · rw [List.mem_append, not_or]
    exact ⟨remote.name_noSlash, by decide⟩
  · exact remote.name_noSlash

theorem dropTrailing_path :
    Text.dropTrailing (· == '/') remote.path = remote.owner.toList ++ '/' :: remote.lastPart := by
  have hslashes : ∀ c ∈ List.replicate remote.slashes '/', (c == '/') = true := by
    intro c hc
    rw [List.eq_of_mem_replicate hc, beq_self_eq_true]
  rw [path, Text.dropTrailing_append hslashes]
  refine Text.dropTrailing_of_last fun c hc => ?_
  rw [beq_eq_false_iff_ne]
  rintro rfl
  obtain ⟨first, rest, hpart⟩ := List.exists_cons_of_ne_nil remote.lastPart_ne_nil
  rw [hpart, List.getLast?_append, List.getLast?_cons_cons, ← hpart] at hc
  have hlast : remote.lastPart.getLast? = some '/' := by
    simpa [List.getLast?_eq_some_getLast remote.lastPart_ne_nil] using hc
  exact remote.lastPart_noSlash (List.mem_of_getLast? hlast)

theorem cut_mark : (Text.beforeTail? ".git" (remote.owner.toList ++ '/' :: remote.lastPart)).getD
    (remote.owner.toList ++ '/' :: remote.lastPart) =
      remote.owner.toList ++ '/' :: remote.name.toList := by
  unfold lastPart
  split
  · rw [← List.cons_append, ← List.append_assoc, Text.beforeTail?_eq_some_iff.mpr rfl,
      Option.getD_some]
  · rename_i hmarked
    have hnone : Text.beforeTail? ".git" (remote.owner.toList ++ '/' :: remote.name.toList) =
        none := by
      rw [Text.beforeTail?_eq_none_iff]
      exact fun hsuffix => remote.mark_taken hmarked (suffix_of_noSlash (by decide) hsuffix)
    rw [hnone, Option.getD_none]

theorem ownerAndName?_path :
    ownerAndName? remote.path = some (remote.owner.toList, remote.name.toList) := by
  have howner : remote.owner.toList ≠ [] := by simpa using remote.owner_ne
  have hname : remote.name.toList ≠ [] := by simpa using remote.name_ne
  simp only [ownerAndName?, dropTrailing_path, cut_mark]
  rw [List.splitOn_append_cons_self_of_not_mem remote.owner_noSlash,
    List.splitOn_eq_singleton remote.name_noSlash]
  simp [howner, hname]

theorem directoryOf_url : directoryOf remote.url = remote.owner ++ "-" ++ remote.name := by
  rw [directoryOf, afterHost?_url, Option.bind_some, ownerAndName?_path]
  apply String.toList_inj.mp
  simp

end Remote

/-! What is read as owner and name was spelled by them. -/

theorem exists_host {cs path : List Char} (h : afterHost? cs = some path) :
    ∃ host : Host, cs = host.address.toList ++ path := by
  rcases Option.or_eq_some_iff.mp h with hhttps | ⟨_, hssh⟩
  · exact ⟨.https, (Text.afterHead?_eq_some_iff.mp hhttps).symm⟩
  · exact ⟨.ssh, (Text.afterHead?_eq_some_iff.mp hssh).symm⟩

theorem ownerAndName?_inv {path owner name : List Char}
    (h : ownerAndName? path = some (owner, name)) :
    owner ≠ [] ∧ name ≠ [] ∧
      (Text.beforeTail? ".git" (Text.dropTrailing (· == '/') path)).getD
        (Text.dropTrailing (· == '/') path) = owner ++ '/' :: name := by
  unfold ownerAndName? at h
  dsimp only at h
  split at h
  · rename_i hsplit
    split at h
    · contradiction
    · rename_i hempty
      cases h
      simp only [Bool.or_eq_true, List.isEmpty_iff, not_or] at hempty
      refine ⟨hempty.1, hempty.2, (List.intercalate_splitOn '/').symm.trans ?_⟩
      rw [hsplit]
      simp
  · contradiction

theorem exists_remote {url : String} {host : Host} {path owner name : List Char}
    (hurl : url.toList = host.address.toList ++ path)
    (h : ownerAndName? path = some (owner, name)) : ∃ remote : Remote, remote.url = url := by
  obtain ⟨howner, hname, hcut⟩ := ownerAndName?_inv h
  obtain ⟨hownerSlash, hnameSlash⟩ := noSlash_of_ownerAndName? h
  obtain ⟨slashes, hpath, hslashes⟩ := Text.exists_trailing (· == '/') path
  have hreplicate : slashes = List.replicate slashes.length '/' :=
    List.eq_replicate_of_mem fun c hc => beq_iff_eq.mp (hslashes c hc)
  generalize Text.dropTrailing (· == '/') path = named at hcut hpath
  cases hmark : Text.beforeTail? ".git" named with
  | some front =>
      rw [hmark, Option.getD_some] at hcut
      have hnamed := Text.beforeTail?_eq_some_iff.mp hmark
      refine ⟨⟨host, String.ofList owner, String.ofList name, true, slashes.length,
        by simpa using howner, by simpa using hname, by simpa using hownerSlash,
        by simpa using hnameSlash, by simp⟩, String.toList_inj.mp ?_⟩
      rw [Remote.toList_url, hurl, hpath, ← hnamed, hcut, hreplicate]
      simp [Remote.path, Remote.lastPart]
  | none =>
      rw [hmark, Option.getD_none] at hcut
      have hunmarked : ¬ ".git".toList <:+ name := fun hsuffix =>
        Text.beforeTail?_eq_none_iff.mp hmark
          (hcut ▸ hsuffix.trans ((List.suffix_cons _ _).trans (List.suffix_append _ _)))
      refine ⟨⟨host, String.ofList owner, String.ofList name, false, slashes.length,
        by simpa using howner, by simpa using hname, by simpa using hownerSlash,
        by simpa using hnameSlash, by simpa using hunmarked⟩, String.toList_inj.mp ?_⟩
      rw [Remote.toList_url, hurl, hpath, hcut, hreplicate]
      simp [Remote.path, Remote.lastPart]

theorem no_remote_iff {url : String} :
    (∀ remote : Remote, remote.url ≠ url) ↔
      (afterHost? url.toList).bind ownerAndName? = none := by
  constructor
  · intro h
    rw [Option.eq_none_iff_forall_ne_some]
    rintro ⟨owner, name⟩ hnamed
    obtain ⟨path, hpath, hread⟩ := Option.bind_eq_some_iff.mp hnamed
    obtain ⟨host, hurl⟩ := exists_host hpath
    obtain ⟨remote, hremote⟩ := exists_remote hurl hread
    exact h remote hremote
  · rintro h remote rfl
    rw [remote.afterHost?_url, Option.bind_some, remote.ownerAndName?_path] at h
    cases h

/-! Any other remote. -/

theorem IsSlug.no_host {cs : List Char} (h : IsSlug cs) : afterHost? cs = none := by
  rw [Option.eq_none_iff_forall_ne_some]
  intro path hpath
  obtain ⟨host, rfl⟩ := exists_host hpath
  have hcolon : ':' ∈ host.address.toList := by cases host <;> decide
  exact absurd (h.words ':' (List.mem_append_left path hcolon)) (by decide)

theorem directoryOf_of_isSlug {cs : List Char} (h : IsSlug cs) (hne : cs ≠ []) :
    directoryOf (String.ofList cs) = String.ofList cs := by
  rw [directoryOf, String.toList_ofList, h.no_host, Option.bind_none, slugOf_of_isSlug h]
  simp [hne]

theorem IsSlug.eq_nil {cs : List Char} (h : IsSlug cs) (hparts : parts cs = []) : cs = [] := by
  cases cs with
  | nil => rfl
  | cons c rest =>
      have hdash : c ≠ '-' := by
        rintro rfl
        exact h.first rfl
      have hpart : isPart c := by simp [isPart, h.words c List.mem_cons_self, hdash]
      obtain ⟨front, others, hsplit⟩ :=
        List.exists_cons_of_ne_nil (List.splitOnP_ne_nil (fun c => !isPart c) rest)
      rw [parts, List.splitOnP_cons_eq_if_modifyHead, if_neg (by simp [hpart]), hsplit] at hparts
      simp at hparts

theorem isSlug_unknown : IsSlug "unknown".toList := by
  have hslug : slugOf "unknown".toList = "unknown".toList := by decide +kernel
  rw [← hslug]
  exact isSlug_slugOf _

theorem directoryOf_unknown : directoryOf "unknown" = "unknown" := by
  have hkept := directoryOf_of_isSlug isSlug_unknown (by decide)
  rwa [String.ofList_toList] at hkept

theorem directoryOf_of_no_remote {url : String} (h : ∀ remote : Remote, remote.url ≠ url) :
    directoryOf url =
      if slugOf url.toList = [] then "unknown" else String.ofList (slugOf url.toList) := by
  rw [directoryOf, no_remote_iff.mp h]
  simp only [List.isEmpty_iff]

/-- Every remote has a directory with one name. That of a GitHub repository is the same for all
the ways to spell its remote. That of any other remote is a slug, which is its own directory, and
has the parts of the remote, or is `unknown` if the remote has none. -/
theorem directoryOf_identifies :
    (∀ url, Path.IsName (directoryOf url)) ∧
    (∀ remote : Remote, directoryOf remote.url = remote.owner ++ "-" ++ remote.name) ∧
    ∀ url, (∀ remote : Remote, remote.url ≠ url) →
      IsSlug (directoryOf url).toList ∧ directoryOf (directoryOf url) = directoryOf url ∧
      (if parts url.toList = [] then directoryOf url = "unknown"
        else parts (directoryOf url).toList = parts url.toList) := by
  refine ⟨fun url => isName_directory ⟨url, ""⟩, Remote.directoryOf_url, fun url hurl => ?_⟩
  have hslug := isSlug_slugOf url.toList
  have hparts := parts_slugOf url.toList
  rw [directoryOf_of_no_remote hurl]
  by_cases hnil : slugOf url.toList = []
  · have hnone : parts url.toList = [] := hparts ▸ hnil ▸ rfl
    rw [if_pos hnil, if_pos hnone]
    exact ⟨isSlug_unknown, directoryOf_unknown, rfl⟩
  · have hsome : parts url.toList ≠ [] := fun hnone => hnil (hslug.eq_nil (hparts.trans hnone))
    rw [if_neg hnil, if_neg hsome, String.toList_ofList]
    exact ⟨hslug, directoryOf_of_isSlug hslug hnil, hparts⟩

/-- One part too many for a GitHub remote, and separators in a row. -/
theorem nested_remote_is_slugged :
    let url := "https://github.com/team/pug--lexer/_main.git/"
    (∀ remote : Remote, remote.url ≠ url) ∧
      IsSlug (directoryOf url).toList ∧ directoryOf (directoryOf url) = directoryOf url ∧
      parts (directoryOf url).toList =
        ["https".toList, "github".toList, "com".toList, "team".toList, "pug".toList,
          "lexer".toList, "_main".toList, "git".toList] := by
  intro url
  have hurl : ∀ remote : Remote, remote.url ≠ url := no_remote_iff.mpr (by decide +kernel)
  have hurlParts : parts url.toList = ["https".toList, "github".toList, "com".toList,
      "team".toList, "pug".toList, "lexer".toList, "_main".toList, "git".toList] := by
    decide +kernel
  obtain ⟨_, _, hother⟩ := directoryOf_identifies
  obtain ⟨hslug, hfixed, hparts⟩ := hother url hurl
  rw [hurlParts, if_neg (by decide)] at hparts
  exact ⟨hurl, hslug, hfixed, hparts⟩

end SpanReview.Repository
