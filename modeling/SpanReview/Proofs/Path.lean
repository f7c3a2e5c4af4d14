import SpanReview.Path
import SpanReview.Proofs.Text.Split

namespace SpanReview.Path

/-! Where a path ends tells whether it can stand for a file. -/

theorem endsAtDirectory_of_getLast? {path : Path} {c : Char} (hc : path.toList.getLast? = some c)
    (hslash : c ≠ '/') (hdot : c ≠ '.') : path.endsAtDirectory = false := by
  obtain ⟨piece, hpiece, hlast⟩ := Text.getLast?_splitOn hc hslash
  have hparts : path.parts.getLast? = some (String.ofList piece) := by
    rw [parts, List.getLast?_map, hpiece, Option.map_some]
  have hempty : String.ofList piece ≠ "" := by
    intro h
    have hnil : piece = [] := by simpa using congrArg String.toList h
    rw [hnil] at hlast
    cases hlast
  have hsingle : String.ofList piece ≠ "." := by
    intro h
    have hcs : piece = ['.'] := by simpa using congrArg String.toList h
    rw [hcs] at hlast
    exact hdot (Option.some.inj hlast).symm
  simp [endsAtDirectory, hparts, hempty, hsingle]

/-- What can stand for a file has a name. -/
theorem names_ne_nil {path : Path} (h : path.endsAtDirectory = false) : path.names ≠ [] := by
  have hlast : path.parts.getLast? ≠ some "" ∧ path.parts.getLast? ≠ some "." := by
    simpa [endsAtDirectory] using h
  have hparts : path.parts ≠ [] := by
    rw [parts, ne_eq, List.map_eq_nil_iff]
    exact List.splitOn_ne_nil _ _
  have hsome := List.getLast?_eq_some_getLast hparts
  generalize path.parts.getLast hparts = last at hsome
  rw [hsome] at hlast
  refine List.ne_nil_of_mem (a := last) (List.mem_filter.mpr ⟨List.mem_of_getLast? hsome, ?_⟩)
  simpa using hlast

theorem getLast?_join {path part : Path} {c : Char} (h : part.toList.getLast? = some c) :
    (path.join part).toList.getLast? = some c := by
  unfold join
  split
  · exact h
  · split
    · rw [String.toList_append, List.getLast?_append, h, Option.some_or]
    · rw [String.toList_append, List.getLast?_append, h, Option.some_or]

theorem join_endsWith (path part : Path) :
    ∃ before, (path.join part).toList = before ++ part.toList := by
  unfold join
  split
  · exact ⟨[], rfl⟩
  · split
    · exact ⟨_, String.toList_append⟩
    · exact ⟨_, String.toList_append⟩

/-! The pieces of a path that are names. Slashes and what else marks the end of a directory
add none, and a path read backwards has the same pieces backwards. -/

def pieces (cs : List Char) : List (List Char) :=
  (cs.splitOn '/').filter fun piece => piece ≠ [] ∧ piece ≠ ['.']

theorem names_eq_pieces (path : Path) : path.names = (pieces path.toList).map String.ofList := by
  have hreal : (fun part : String => part != "" && part != ".") ∘ String.ofList =
      fun piece => decide (piece ≠ [] ∧ piece ≠ ['.']) := by
    funext piece
    have hhere : String.ofList piece = "." ↔ piece = ['.'] := by
      rw [← String.ofList_inj]
    rw [Bool.eq_iff_iff]
    simp [hhere]
  rw [names, parts, List.filter_map, hreal]
  rfl

theorem pieces_append_slash (before after : List Char) :
    pieces (before ++ '/' :: after) = pieces before ++ pieces after := by
  rw [pieces, List.splitOn_append_cons_self, List.filter_append]
  rfl

theorem pieces_of_noSlash {cs : List Char} (h : '/' ∉ cs) :
    pieces cs = if cs ≠ [] ∧ cs ≠ ['.'] then [cs] else [] := by
  rw [pieces, List.splitOn_eq_singleton h, List.filter_cons, List.filter_nil]
  simp only [decide_eq_true_eq]

theorem pieces_reverse (cs : List Char) :
    pieces cs.reverse = ((pieces cs).map List.reverse).reverse := by
  have hreal : (fun piece : List Char => decide (piece ≠ [] ∧ piece ≠ ['.'])) ∘ List.reverse =
      fun piece => decide (piece ≠ [] ∧ piece ≠ ['.']) := by
    funext piece
    have hhere : piece.reverse = ['.'] ↔ piece = ['.'] := List.reverse_eq_iff
    simp [hhere]
  rw [pieces, Text.splitOn_reverse, List.filter_reverse, List.filter_map, hreal]
  rfl

theorem pieces_dropDirectoryMarks (cs : List Char) :
    pieces (dropDirectoryMarks cs) = pieces cs := by
  fun_induction dropDirectoryMarks cs with
  | case1 rest ih => exact ih.trans (pieces_append_slash [] rest).symm
  | case2 rest ih => exact ih.trans (pieces_append_slash ['.'] rest).symm
  | case3 rest hslash hhere => rfl

/-- Without its directory marks, a path read backwards begins with its last name. -/
theorem dropDirectoryMarks_begins {cs first : List Char} {others : List (List Char)}
    (h : pieces cs = first :: others) :
    ∃ rest, dropDirectoryMarks cs = first ++ rest ∧ pieces rest = others := by
  fun_induction dropDirectoryMarks cs with
  | case1 rest ih => exact ih ((pieces_append_slash [] rest).symm.trans h)
  | case2 rest ih => exact ih ((pieces_append_slash ['.'] rest).symm.trans h)
  | case3 cs hslash hhere =>
      by_cases hmem : '/' ∈ cs
      · obtain ⟨name, rest, rfl, hname⟩ := List.eq_append_cons_of_mem hmem
        have hreal : name ≠ [] ∧ name ≠ ['.'] := by
          refine ⟨?_, ?_⟩
          · rintro rfl
            exact hslash rest rfl
          · rintro rfl
            exact hhere rest rfl
        rw [pieces_append_slash, pieces_of_noSlash hname, if_pos hreal] at h
        obtain ⟨rfl, rfl⟩ := List.cons.inj h
        exact ⟨'/' :: rest, rfl, pieces_append_slash [] rest⟩
      · rw [pieces_of_noSlash hmem] at h
        split at h
        · obtain ⟨rfl, rfl⟩ := List.cons.inj h
          exact ⟨[], (List.append_nil _).symm, rfl⟩
        · contradiction

/-! Directories above. -/

theorem names_parent (path : Path) : path.parent.names = path.names.dropLast := by
  rw [names_eq_pieces, names_eq_pieces]
  unfold parent
  rw [names_eq_pieces, String.toList_ofList, pieces_reverse, pieces_dropDirectoryMarks]
  have hback := pieces_reverse path.toList
  rcases List.eq_nil_or_concat (pieces path.toList) with hnone | ⟨above, name, hsplit⟩
  · rw [hnone] at hback ⊢
    have hnothing : pieces (dropDirectoryMarks path.toList.reverse) = [] := by
      rw [pieces_dropDirectoryMarks, hback]
      rfl
    simp [hnothing]
  · rw [hsplit] at hback ⊢
    have hfirst : pieces path.toList.reverse =
        name.reverse :: (above.map List.reverse).reverse := by
      simpa using hback
    obtain ⟨rest, hrest, hpieces⟩ := dropDirectoryMarks_begins hfirst
    have hdrop : (name.reverse ++ rest).drop name.length = rest :=
      List.drop_left' List.length_reverse
    simp [hrest, hdrop, hpieces]

theorem names_prefix_of_mem_parents {path above : Path} {count : Nat}
    (h : above ∈ path.parents count) : above.names <+: path.names.dropLast := by
  induction count generalizing path with
  | zero => contradiction
  | succ count ih =>
      rcases List.mem_cons.mp h with rfl | hhigher
      · exact names_parent path ▸ List.prefix_rfl
      · have hprefix := ih hhigher
        rw [names_parent] at hprefix
        exact hprefix.trans (List.dropLast_prefix _)

theorem names_prefix_of_mem_directoriesAbove {path above : Path}
    (h : above ∈ path.directoriesAbove) : above.names <+: path.names.dropLast :=
  names_prefix_of_mem_parents h

theorem dropDirectoryMarks_suffix (cs : List Char) : dropDirectoryMarks cs <:+ cs := by
  fun_induction dropDirectoryMarks cs with
  | case1 rest ih => exact ih.trans (List.suffix_cons '/' rest)
  | case2 rest ih => exact ih.trans (List.suffix_append ['.', '/'] rest)
  | case3 rest hslash hhere => exact List.suffix_rfl

theorem toList_parent_prefix (path : Path) : path.parent.toList <+: path.toList := by
  unfold parent
  rw [String.toList_ofList]
  have hsuffix := (dropDirectoryMarks_suffix _).trans
    ((List.drop_suffix (path.names.getLast?.getD "").length _).trans
      (dropDirectoryMarks_suffix path.toList.reverse))
  simpa using List.reverse_prefix.mpr hsuffix

theorem isAbsolute_parent {path : Path} (h : path.names.dropLast ≠ []) :
    path.parent.isAbsolute = path.isAbsolute := by
  obtain ⟨rest, hrest⟩ := toList_parent_prefix path
  rw [isAbsolute, isAbsolute, ← hrest]
  cases hparent : path.parent.toList with
  | nil =>
      have hempty : path.parent = "" := String.toList_eq_nil_iff.mp hparent
      rw [← names_parent, hempty] at h
      exact absurd rfl h
  | cons c cs => rfl

theorem parents_of_few {path above : Path} {count : Nat} (h : above ∈ path.parents count)
    (hcount : count < path.names.length) :
    above.names ≠ [] ∧ above.isAbsolute = path.isAbsolute := by
  induction count generalizing path with
  | zero => contradiction
  | succ count ih =>
      have hfolders : path.names.dropLast ≠ [] := by
        refine List.ne_nil_of_length_pos ?_
        rw [List.length_dropLast]
        omega
      rcases List.mem_cons.mp h with rfl | hhigher
      · exact ⟨by rwa [names_parent], isAbsolute_parent hfolders⟩
      · have hfew : count < path.parent.names.length := by
          rw [names_parent, List.length_dropLast]
          omega
        obtain ⟨hnames, habsolute⟩ := ih hhigher hfew
        exact ⟨hnames, habsolute.trans (isAbsolute_parent hfolders)⟩

/-- The directories above a path have names, and are followed from where it is followed from. -/
theorem mem_directoriesAbove {path above : Path} (h : above ∈ path.directoriesAbove) :
    above.names ≠ [] ∧ above.isAbsolute = path.isAbsolute := by
  cases hnames : path.names with
  | nil =>
      rw [directoriesAbove, hnames] at h
      contradiction
  | cons name rest =>
      refine parents_of_few h ?_
      rw [hnames, List.length_cons]
      omega

/-! A name set behind a path. -/

/-- A text that is one name of a path, and the name of an entry. -/
structure IsName (part : String) : Prop where
  nonempty : part ≠ ""
  notHere : part ≠ "."
  notUp : part ≠ ".."
  noSlash : '/' ∉ part.toList

theorem isName_of_mem {part : String} {c : Char} (hc : c ∈ part.toList) (hdot : c ≠ '.')
    (hslash : '/' ∉ part.toList) : IsName part where
  nonempty := by
    rintro rfl
    contradiction
  notHere := by
    rintro rfl
    exact hdot (List.mem_singleton.mp hc)
  notUp := by
    rintro rfl
    have hdots : c ∈ ['.', '.'] := hc
    simp [hdot] at hdots
  noSlash := hslash

/-- What is written before a part that is joined to a path. -/
def lead (path : Path) : List Char :=
  if path == "" || path.toList.getLast? == some '/' then path.toList else path.toList ++ ['/']

theorem toList_join {path part : Path} (h : part.isAbsolute = false) :
    (path.join part).toList = path.lead ++ part.toList := by
  rw [join, lead, if_neg (by simp [h])]
  split
  · exact String.toList_append
  · simp [String.toList_append]

theorem pieces_lead (path : Path) (cs : List Char) :
    pieces (path.lead ++ cs) = pieces path.toList ++ pieces cs := by
  rw [lead]
  split
  · rename_i hlead
    rcases Bool.or_eq_true_iff.mp hlead with hempty | hslash
    · obtain rfl := beq_iff_eq.mp hempty
      rfl
    · obtain ⟨before, hbefore⟩ := List.getLast?_eq_some_iff.mp (beq_iff_eq.mp hslash)
      have hnone : pieces (before ++ ['/']) = pieces before := by
        rw [pieces_append_slash]
        exact List.append_nil _
      rw [hbefore, hnone, List.append_assoc]
      exact pieces_append_slash before cs
  · rw [List.append_assoc]
    exact pieces_append_slash path.toList cs

theorem pieces_name {part : String} (h : IsName part) : pieces part.toList = [part.toList] := by
  rw [pieces_of_noSlash h.noSlash, if_pos]
  exact ⟨fun hnil => h.nonempty (String.toList_inj.mp hnil),
    fun hhere => h.notHere (String.toList_inj.mp hhere)⟩

theorem isRelative_of_noSlash {part : Path} (h : '/' ∉ part.toList) : part.isAbsolute = false := by
  rw [isAbsolute, beq_eq_false_iff_ne]
  exact fun hhead => h (List.mem_of_head? hhead)

theorem names_join_of_relative {path part : Path} (h : part.isAbsolute = false) :
    (path.join part).names = path.names ++ part.names := by
  rw [names_eq_pieces, toList_join h, pieces_lead, List.map_append, names_eq_pieces,
    names_eq_pieces]

theorem names_of_isName {part : String} (h : IsName part) : names part = [part] := by
  rw [names_eq_pieces, pieces_name h, List.map_singleton, String.ofList_toList]

/-! A text of several names. -/

/-- Between the slashes of a text stand names only. -/
def IsTrail (part : Path) : Prop :=
  ∀ name ∈ part.parts, name ≠ "" ∧ name ≠ "." ∧ name ≠ ".."

instance (part : Path) : Decidable (IsTrail part) :=
  inferInstanceAs (Decidable (∀ name ∈ part.parts, name ≠ "" ∧ name ≠ "." ∧ name ≠ ".."))

section Trail

variable {part : Path}

theorem noSlash_of_mem_parts {name : String} (h : name ∈ part.parts) : '/' ∉ name.toList := by
  obtain ⟨piece, hpiece, rfl⟩ := List.mem_map.mp h
  rw [String.toList_ofList]
  exact Text.not_mem_of_mem_splitOn hpiece

theorem IsTrail.isName (h : IsTrail part) : ∀ name ∈ part.parts, IsName name := by
  intro name hname
  obtain ⟨hempty, hhere, hup⟩ := h name hname
  exact ⟨hempty, hhere, hup, noSlash_of_mem_parts hname⟩

theorem IsTrail.names_eq (h : IsTrail part) : part.names = part.parts := by
  refine List.filter_eq_self.mpr fun name hname => ?_
  obtain ⟨hempty, hhere, _⟩ := h name hname
  simp [hempty, hhere]

theorem IsTrail.isRelative (h : IsTrail part) : part.isAbsolute = false := by
  rw [isAbsolute, beq_eq_false_iff_ne]
  intro hslash
  obtain ⟨rest, hrest⟩ := List.head?_eq_some_iff.mp hslash
  have hfirst : "" ∈ part.parts := by
    have hsplit := List.splitOn_append_cons_self_of_not_mem (List.not_mem_nil (a := '/')) rest
    rw [parts, hrest]
    exact hsplit ▸ List.mem_cons_self
  exact (h "" hfirst).1 rfl

theorem parts_of_noSlash (h : '/' ∉ part.toList) : part.parts = [part] := by
  rw [parts, List.splitOn_eq_singleton h, List.map_singleton, String.ofList_toList]

theorem toList_eq_intercalate (part : Path) :
    part.toList = ['/'].intercalate (part.parts.map String.toList) := by
  have hpieces : part.parts.map String.toList = part.toList.splitOn '/' := by
    rw [parts, List.map_map]
    exact List.map_id'' (fun piece => String.toList_ofList) _
  rw [hpieces, List.intercalate_splitOn]

theorem parts_inj {other : Path} : part.parts = other.parts ↔ part = other := by
  refine ⟨fun h => ?_, fun h => h ▸ rfl⟩
  rw [← String.toList_inj, toList_eq_intercalate, h, ← toList_eq_intercalate]

theorem IsName.isTrail (h : IsName part) : IsTrail part := by
  rw [IsTrail, parts_of_noSlash h.noSlash, List.forall_mem_singleton]
  exact ⟨h.nonempty, h.notHere, h.notUp⟩

theorem IsTrail.getLast? (h : IsTrail part) : ∃ c, part.toList.getLast? = some c ∧ c ≠ '/' := by
  cases hlast : part.toList.getLast? with
  | none =>
      have hempty : "" ∈ part.parts := by
        rw [parts, List.getLast?_eq_none_iff.mp hlast]
        exact List.mem_cons_self
      exact absurd rfl (h "" hempty).1
  | some c =>
      refine ⟨c, rfl, ?_⟩
      rintro rfl
      obtain ⟨before, hbefore⟩ := List.getLast?_eq_some_iff.mp hlast
      have hempty : "" ∈ part.parts := by
        rw [parts, hbefore, List.splitOn_append_cons_self, List.map_append]
        exact List.mem_append_right _ List.mem_cons_self
      exact (h "" hempty).1 rfl

theorem lead_join {path : Path} (h : IsTrail part) :
    (path.join part).lead = path.lead ++ part.toList ++ ['/'] := by
  obtain ⟨c, hc, hslash⟩ := h.getLast?
  have hlast : (path.join part).toList.getLast? = some c := getLast?_join hc
  have hempty : path.join part ≠ "" := by
    intro hnil
    rw [hnil] at hlast
    cases hlast
  rw [lead, if_neg (by simp [hlast, hslash, hempty]), toList_join h.isRelative]

end Trail

section Trails

variable {path first : Path} {parts : List Path}

theorem names_foldl_join_trails (h : ∀ part ∈ parts, IsTrail part) :
    names (parts.foldl join path) = path.names ++ parts.flatMap Path.parts := by
  induction parts generalizing path with
  | nil => exact (List.append_nil _).symm
  | cons part rest ih =>
      obtain ⟨hpart, hrest⟩ := List.forall_mem_cons.mp h
      rw [List.foldl_cons, ih hrest, names_join_of_relative hpart.isRelative, hpart.names_eq,
        List.append_assoc, List.flatMap_cons]

theorem isAbsolute_join {path part : Path} (h : part.isAbsolute = false) :
    (path.join part).isAbsolute = path.isAbsolute := by
  rw [isAbsolute, toList_join h, lead, isAbsolute]
  cases hpath : path.toList with
  | nil =>
      have hempty : path = "" := String.toList_eq_nil_iff.mp hpath
      rw [hempty]
      exact h
  | cons c cs => split <;> rfl

theorem isAbsolute_foldl_join (h : ∀ part ∈ parts, IsName part) (path : Path) :
    (parts.foldl join path).isAbsolute = path.isAbsolute := by
  induction parts generalizing path with
  | nil => rfl
  | cons part parts ih =>
      obtain ⟨hpart, hparts⟩ := List.forall_mem_cons.mp h
      rw [List.foldl_cons, ih hparts, isAbsolute_join (isRelative_of_noSlash hpart.noSlash)]

theorem names_foldl_join (h : ∀ part ∈ parts, IsName part) :
    names (parts.foldl join path) = path.names ++ parts := by
  have hsingle : parts.flatMap Path.parts = parts := by
    have hmap := List.map_congr_left fun part hpart => parts_of_noSlash (h part hpart).noSlash
    rw [List.flatMap_def, hmap, ← List.flatMap_def, List.flatMap_singleton']
  rw [names_foldl_join_trails fun part hpart => (h part hpart).isTrail, hsingle]

theorem toList_foldl_join (h : ∀ part ∈ first :: parts, IsTrail part) :
    ((first :: parts).foldl join path).toList =
      path.lead ++ ['/'].intercalate ((first :: parts).map String.toList) := by
  induction parts generalizing path first with
  | nil =>
      rw [List.map_singleton, List.intercalate_singleton]
      exact toList_join (List.forall_mem_singleton.mp h).isRelative
  | cons next rest ih =>
      obtain ⟨hfirst, hrest⟩ := List.forall_mem_cons.mp h
      rw [List.foldl_cons, ih hrest, lead_join hfirst]
      simp [List.intercalate_cons_cons]

end Trails

theorem up_not_mem {parts : List String} (h : ∀ part ∈ parts, IsName part) : ".." ∉ parts :=
  fun hup => (h _ hup).notUp rfl

/-! The extension of the last name. -/

theorem cutAtDot_append {stem extension : String} (hstem : stem ≠ "")
    (h : '.' ∉ extension.toList) :
    cutAtDot (stem ++ "." ++ extension) = some (stem, extension) := by
  have hextension : ∀ c ∈ extension.toList.reverse, (c != '.') = true := by
    intro c hc
    have hne : c ≠ '.' := by
      rintro rfl
      exact h (List.mem_reverse.mp hc)
    simpa using hne
  have hback : (stem ++ "." ++ extension).toList.reverse =
      extension.toList.reverse ++ '.' :: stem.toList.reverse := by
    simp [String.toList_append]
  simp only [cutAtDot, hback]
  simp [ List.takeWhile_append_of_pos hextension,
    List.dropWhile_append_of_pos hextension, hstem]

theorem eq_of_cutAtDot {name stem extension : String}
    (h : cutAtDot name = some (stem, extension)) :
    name = stem ++ "." ++ extension ∧ '.' ∉ extension.toList ∧ stem ≠ "" := by
  unfold cutAtDot at h
  dsimp only at h
  split at h
  · contradiction
  · rename_i hstem
    cases h
    have hback := List.takeWhile_append_dropWhile (p := (· != '.')) (l := name.toList.reverse)
    have hextension := List.all_takeWhile (p := (· != '.')) (l := name.toList.reverse)
    generalize name.toList.reverse.takeWhile (· != '.') = extension at hback hextension ⊢
    have hfirst := List.head?_dropWhile_not (· != '.') name.toList.reverse
    generalize name.toList.reverse.dropWhile (· != '.') = before at hback hfirst hstem ⊢
    cases before with
    | nil => simp at hstem
    | cons c before =>
        obtain rfl : c = '.' := by simpa using hfirst
        have hname := congrArg List.reverse hback
        rw [List.reverse_reverse] at hname
        refine ⟨?_, ?_, by simpa using hstem⟩
        · rw [← String.toList_inj, ← hname]
          simp [String.toList_append]
        · intro hdot
          rw [String.toList_ofList, List.mem_reverse] at hdot
          simpa using List.all_eq_true.mp hextension '.' hdot

theorem cutAtDot_stem_subset {name stem extension : String}
    (h : cutAtDot name = some (stem, extension)) : stem.toList ⊆ name.toList := by
  obtain ⟨rfl, _, _⟩ := eq_of_cutAtDot h
  rw [String.append_assoc, String.toList_append]
  exact List.subset_append_left _ _

/-- A file name without its last extension; all of it if nothing stands before its last dot, or
if it is the two dots that name no file. -/
inductive IsStem (name : String) : String → Prop
  | cut {stem extension : String} (hname : name = stem ++ "." ++ extension)
      (hextension : '.' ∉ extension.toList) (hstem : stem ≠ "") (hup : name ≠ "..") :
      IsStem name stem
  | whole (h : ∀ stem extension, name = stem ++ "." ++ extension → '.' ∉ extension.toList →
      stem = "" ∨ name = "..") : IsStem name name

theorem IsStem.unique {name stem other : String} (h : IsStem name stem)
    (hother : IsStem name other) : stem = other := by
  cases h with
  | cut hname hextension hstem hup =>
      cases hother with
      | cut hname' hextension' hstem' hup' =>
          have hcut := cutAtDot_append hstem hextension
          rw [← hname, hname', cutAtDot_append hstem' hextension'] at hcut
          exact (Prod.mk.inj (Option.some.inj hcut)).1.symm
      | whole hwhole =>
          rcases hwhole _ _ hname hextension with hempty | hdots
          · exact absurd hempty hstem
          · exact absurd hdots hup
  | whole hwhole =>
      cases hother with
      | cut hname hextension hstem hup =>
          rcases hwhole _ _ hname hextension with hempty | hdots
          · exact absurd hempty hstem
          · exact absurd hdots hup
      | whole => rfl

theorem stemOrSelf_of_isName {name : String} (h : IsName name) :
    stemOrSelf name = match cutAtDot name with
      | some (stem, _) => stem
      | none => name := by
  rw [stemOrSelf, fileStem?, fileName?, names_of_isName h, List.getLast?_singleton,
    Option.bind_some, if_neg (by simpa using h.notUp)]
  rfl

theorem isStem_stemOrSelf {name : String} (hslash : '/' ∉ name.toList) :
    IsStem name (stemOrSelf name) := by
  by_cases hname : IsName name
  · rw [stemOrSelf_of_isName hname]
    cases hcut : cutAtDot name with
    | some cut =>
        obtain ⟨heq, hextension, hstem⟩ := eq_of_cutAtDot hcut
        exact .cut heq hextension hstem hname.notUp
    | none =>
        refine .whole fun stem extension heq hextension => .inl ?_
        refine Decidable.byContradiction fun hstem => ?_
        rw [heq, cutAtDot_append hstem hextension] at hcut
        cases hcut
  · -- What is left are the three texts that are no names.
    have hshort : ∀ stem extension, name = stem ++ "." ++ extension → name.length ≤ 1 →
        stem = "" := by
      intro stem extension heq hlength
      have hdot : (".").length = 1 := rfl
      rw [heq, String.length_append, String.length_append, hdot] at hlength
      exact String.length_eq_zero_iff.mp (by omega)
    by_cases hempty : name = ""
    · subst hempty
      exact .whole fun stem extension heq _ => .inl (hshort stem extension heq (by decide))
    · by_cases hhere : name = "."
      · subst hhere
        exact .whole fun stem extension heq _ => .inl (hshort stem extension heq (by decide))
      · obtain rfl : name = ".." :=
          Decidable.byContradiction fun hup => hname ⟨hempty, hhere, hup, hslash⟩
        exact .whole fun _ _ _ _ => .inr rfl

theorem isStem_iff {name stem : String} (hslash : '/' ∉ name.toList) :
    IsStem name stem ↔ stemOrSelf name = stem := by
  refine ⟨fun h => (isStem_stemOrSelf hslash).unique h, ?_⟩
  rintro rfl
  exact isStem_stemOrSelf hslash

theorem noSlash_of_mem_names {path : Path} {name : String} (h : name ∈ path.names) :
    '/' ∉ name.toList := by
  rw [names_eq_pieces] at h
  obtain ⟨piece, hpiece, rfl⟩ := List.mem_map.mp h
  rw [String.toList_ofList]
  exact Text.not_mem_of_mem_splitOn (List.mem_filter.mp hpiece).1

theorem subset_of_mem_names {path : Path} {name : String} (h : name ∈ path.names) :
    name.toList ⊆ path.toList := by
  rw [names_eq_pieces] at h
  obtain ⟨piece, hpiece, rfl⟩ := List.mem_map.mp h
  rw [String.toList_ofList]
  exact Text.subset_of_mem_splitOn (List.mem_filter.mp hpiece).1

theorem stemOrSelf_of_name (path : Path) :
    stemOrSelf path = path ∨ ∃ name ∈ path.names, (stemOrSelf path).toList ⊆ name.toList := by
  unfold stemOrSelf fileStem?
  cases hname : path.fileName? with
  | none => exact .inl rfl
  | some name =>
      have hmem : name ∈ path.names := by
        unfold fileName? at hname
        obtain ⟨last, hlast, hlast'⟩ := Option.bind_eq_some_iff.mp hname
        split at hlast'
        · contradiction
        · obtain rfl := Option.some.inj hlast'
          exact List.mem_of_getLast? hlast
      refine .inr ⟨name, hmem, ?_⟩
      cases hcut : cutAtDot name with
      | none => simp [hcut]
      | some cut => simpa [hcut] using cutAtDot_stem_subset hcut

theorem noSlash_stemOrSelf {path : Path} (h : '/' ∉ path.toList) :
    '/' ∉ (stemOrSelf path).toList := by
  rcases stemOrSelf_of_name path with hself | ⟨name, hname, hsub⟩
  · rwa [hself]
  · exact fun hslash => noSlash_of_mem_names hname (hsub hslash)

theorem stemOrSelf_subset (path : Path) : (stemOrSelf path).toList ⊆ path.toList := by
  rcases stemOrSelf_of_name path with hself | ⟨name, hname, hsub⟩
  · rw [hself]
    exact List.Subset.refl _
  · exact List.Subset.trans hsub (subset_of_mem_names hname)

theorem dropDirectoryMarks_name {part : String} (h : IsName part) (rest : List Char) :
    dropDirectoryMarks (part.toList.reverse ++ rest) = part.toList.reverse ++ rest := by
  have hslash : '/' ∉ part.toList.reverse := by simpa using h.noSlash
  have hempty : part.toList.reverse ≠ [] := by simpa using h.nonempty
  have hhere : part.toList.reverse ≠ ['.'] := by
    intro hdot
    exact h.notHere (String.toList_inj.mp (List.reverse_eq_iff.mp hdot))
  generalize part.toList.reverse = back at hslash hempty hhere ⊢
  refine dropDirectoryMarks.eq_3 _ (fun tail htail => ?_) (fun tail htail => ?_)
  · cases back with
    | nil => contradiction
    | cons c back =>
        obtain ⟨rfl, _⟩ := List.cons.inj htail
        exact hslash List.mem_cons_self
  · cases back with
    | nil => contradiction
    | cons c back =>
        obtain ⟨rfl, hback⟩ := List.cons.inj htail
        cases back with
        | nil => contradiction
        | cons c back =>
            obtain ⟨rfl, _⟩ := List.cons.inj hback
            exact hslash (List.mem_cons_of_mem _ List.mem_cons_self)

/-! The last name of a path, and what is written before it. -/

structure EndsWith (path : Path) (before : List Char) (name : String) : Prop where
  text : path.toList = before ++ name.toList
  name : IsName name
  before : before = [] ∨ before.getLast? = some '/'

theorem exists_endsWith {path : Path} {before : List Char} {ending : String} {c : Char}
    (h : path.toList = before ++ ending.toList) (hslash : '/' ∉ ending.toList)
    (hc : c ∈ ending.toList) (hdot : c ≠ '.') :
    ∃ folders stem, EndsWith path folders (stem ++ ending) := by
  have hsplit := List.takeWhile_append_dropWhile (p := (· != '/')) (l := before.reverse)
  have hstem := List.all_takeWhile (p := (· != '/')) (l := before.reverse)
  have hfirst := List.head?_dropWhile_not (· != '/') before.reverse
  generalize before.reverse.takeWhile (· != '/') = stem at hsplit hstem
  generalize before.reverse.dropWhile (· != '/') = folders at hsplit hfirst
  have hbefore := congrArg List.reverse hsplit
  rw [List.reverse_reverse, List.reverse_append] at hbefore
  refine ⟨folders.reverse, String.ofList stem.reverse, ?_, isName_of_mem (c := c) ?_ hdot ?_, ?_⟩
  · rw [h, ← hbefore, String.toList_append, String.toList_ofList, List.append_assoc]
  · rw [String.toList_append]
    exact List.mem_append_right _ hc
  · rw [String.toList_append, String.toList_ofList, List.mem_append, List.mem_reverse]
    exact not_or.mpr ⟨fun hmem => by simpa using List.all_eq_true.mp hstem '/' hmem, hslash⟩
  · cases folders with
    | nil => exact .inl rfl
    | cons first rest =>
        obtain rfl : first = '/' := by simpa using hfirst
        exact .inr (by simp)

theorem endsWith_join {path : Path} {name : String} (h : IsName name) :
    EndsWith (path.join name) path.lead name where
  text := toList_join (isRelative_of_noSlash h.noSlash)
  name := h
  before := by
    unfold lead
    split
    · rename_i hlead
      rcases Bool.or_eq_true_iff.mp hlead with hempty | hslash
      · left
        rw [beq_iff_eq.mp hempty]
        rfl
      · exact .inr (beq_iff_eq.mp hslash)
    · exact .inr List.getLast?_concat

namespace EndsWith

variable {path : Path} {before : List Char} {name stem old : String}

theorem names_eq (h : EndsWith path before name) :
    path.names = (pieces before).map String.ofList ++ [name] := by
  rw [names_eq_pieces, h.text]
  rcases h.before with rfl | hlast
  · rw [List.nil_append, pieces_name h.name, List.map_singleton, String.ofList_toList]
    rfl
  · obtain ⟨folders, rfl⟩ := List.getLast?_eq_some_iff.mp hlast
    have hnone : pieces [] = [] := rfl
    rw [List.append_assoc, List.singleton_append, pieces_append_slash, pieces_name h.name,
      pieces_append_slash, hnone, List.append_nil, List.map_append, List.map_singleton,
      String.ofList_toList]

theorem append (h : EndsWith path before name) (ending : String) {c : Char}
    (hc : c ∈ ending.toList) (hdot : c ≠ '.') (hslash : '/' ∉ ending.toList) :
    EndsWith (path ++ ending) before (name ++ ending) where
  text := by
    rw [String.toList_append, String.toList_append, h.text, List.append_assoc]
  name := by
    refine isName_of_mem (c := c) ?_ hdot ?_
    · rw [String.toList_append]
      exact List.mem_append_right _ hc
    · rw [String.toList_append, List.mem_append]
      exact not_or.mpr ⟨h.name.noSlash, hslash⟩
  before := h.before

theorem isAbsolute_append (h : EndsWith path before name) (ending : String) :
    Path.isAbsolute (path ++ ending) = path.isAbsolute := by
  have hname : path.toList ≠ [] := by
    rw [h.text]
    exact List.append_ne_nil_of_right_ne_nil _ fun hnil =>
      h.name.nonempty (String.toList_eq_nil_iff.mp hnil)
  obtain ⟨c, rest, hpath⟩ := List.exists_cons_of_ne_nil hname
  rw [isAbsolute, isAbsolute, String.toList_append, hpath]
  rfl

theorem drop_name (h : EndsWith path before name) :
    (dropDirectoryMarks path.toList.reverse).drop name.length = before.reverse := by
  rw [h.text, List.reverse_append, dropDirectoryMarks_name h.name]
  exact List.drop_left' (by rw [List.length_reverse, String.length_toList])

theorem parent (h : EndsWith path before name) :
    path.parent = String.ofList (dropDirectoryMarks before.reverse).reverse := by
  have hname : path.names.getLast?.getD "" = name := by
    rw [h.names_eq, List.getLast?_concat, Option.getD_some]
  rw [Path.parent, hname, h.drop_name]

theorem withExtension (h : EndsWith path before name) (hcut : cutAtDot name = some (stem, old))
    (extension : String) :
    path.withExtension extension = String.ofList before ++ stem ++ "." ++ extension := by
  have hname : path.fileName? = some name := by
    rw [fileName?, h.names_eq, List.getLast?_concat, Option.bind_some, if_neg]
    simpa using h.name.notUp
  have hstem : path.fileStem? = some stem := by
    rw [fileStem?, hname, Option.map_some, hcut]
  rw [Path.withExtension, hname, hstem]
  dsimp only
  rw [h.drop_name, List.reverse_reverse]

end EndsWith

end SpanReview.Path
