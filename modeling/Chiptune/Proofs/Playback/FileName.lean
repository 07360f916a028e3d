import Chiptune.Playback.DisplayName
import Mathlib.Data.List.Induction

/-!
# The last name of a path

A path is a way of names with slashes between them. Its last name is the one behind which nothing
stands but slashes, some of them with a single dot (`fileName?_eq_some_iff`). A path of nothing else
has none, and neither has a path that ends in the parent directory.

The names are the pieces between slashes, so a path falls apart at every slash (`pathNames_append`);
the rest is read off its pieces from the last one on.
-/

namespace Chiptune.Playback

/-- What may stand in front of the last name: nothing, or a way that ends in a slash. -/
def IsDirectory (bytes : List UInt8) : Prop := bytes = [] ∨ ∃ way, bytes = way ++ [slash]

/-- What may stand behind the last name: slashes, each of them alone or in front of a dot. -/
def IsTrailing (bytes : List UInt8) : Prop :=
  ∃ pieces : List (List UInt8),
    (∀ piece ∈ pieces, piece = [slash] ∨ piece = [slash, dot]) ∧ bytes = pieces.flatten

/-- The last name of a path, by where it stands. One dot names no file, and neither do two. -/
structure IsLastName (path name : List UInt8) : Prop where
  ne_nil : name ≠ []
  ne_dot : name ≠ [dot]
  ne_parent : name ≠ [dot, dot]
  slash_not_mem : slash ∉ name
  split : ∃ directory trailing, IsDirectory directory ∧ IsTrailing trailing ∧
    path = directory ++ name ++ trailing

/-! ### Names between slashes -/

/-- Whether a piece between slashes counts as a name. -/
def isName (piece : List UInt8) : Bool := !decide (piece = [] ∨ piece = [dot])

theorem isName_eq_false_iff {piece : List UInt8} :
    isName piece = false ↔ piece = [] ∨ piece = [dot] := by
  rw [isName, Bool.not_eq_false', decide_eq_true_iff]

theorem reverse_close (found : List (List UInt8)) (piece : List UInt8) :
    (pathNames.close found piece).reverse = found.reverse ++ [piece.reverse].filter isName := by
  have hreverse : piece.reverse = [dot] ↔ piece = [dot] := by
    rw [List.reverse_eq_iff, List.reverse_singleton]
  unfold pathNames.close
  by_cases hpiece : piece = [] ∨ piece = [dot]
  · simp [isName, hreverse, hpiece]
  · simp [isName, hreverse, hpiece]

theorem pathNames_eq (found : List (List UInt8)) {piece : List UInt8} (hpiece : slash ∉ piece)
    (bytes : List UInt8) :
    pathNames found piece bytes =
      found.reverse ++ ((piece.reverse ++ bytes).splitOn slash).filter isName := by
  induction bytes generalizing found piece with
  | nil =>
    rw [pathNames, List.append_nil, List.splitOn_eq_singleton (mt List.mem_reverse.1 hpiece),
      reverse_close]
  | cons byte rest ih =>
    rw [pathNames]
    by_cases hbyte : byte = slash
    · subst hbyte
      rw [if_pos rfl, ih _ List.not_mem_nil, reverse_close, List.splitOn_append_cons_self,
        List.splitOn_eq_singleton (mt List.mem_reverse.1 hpiece), List.filter_append,
        List.append_assoc]
      rfl
    · have hlonger : slash ∉ byte :: piece := by
        rw [List.mem_cons, not_or]
        exact ⟨Ne.symm hbyte, hpiece⟩
      rw [if_neg hbyte, ih found hlonger, List.reverse_cons, List.append_assoc]
      rfl

theorem pathNames_eq_filter (path : List UInt8) :
    pathNames [] [] path = (path.splitOn slash).filter isName :=
  pathNames_eq [] List.not_mem_nil path

/-- The names of a path are the names in front of a slash and those behind it. -/
theorem pathNames_append (front rest : List UInt8) :
    pathNames [] [] (front ++ slash :: rest) = pathNames [] [] front ++ pathNames [] [] rest := by
  simp only [pathNames_eq_filter, List.splitOn_append_cons_self, List.filter_append]

theorem pathNames_of_not_mem {piece : List UInt8} (hpiece : slash ∉ piece) :
    pathNames [] [] piece = [piece].filter isName := by
  rw [pathNames_eq_filter, List.splitOn_eq_singleton hpiece]

/-- A path is taken apart from its last piece on. -/
@[elab_as_elim]
theorem path_induction {motive : List UInt8 → Prop}
    (piece : ∀ piece, slash ∉ piece → motive piece)
    (append : ∀ front piece, slash ∉ piece → motive front → motive (front ++ slash :: piece))
    (path : List UInt8) : motive path := by
  -- The piece behind the path grows byte by byte until a slash is met.
  have hbehind : ∀ last, slash ∉ last → motive (path ++ last) := by
    induction path using List.reverseRecOn with
    | nil => exact piece
    | append_singleton path byte ih =>
      intro last hlast
      rw [List.append_assoc, List.singleton_append]
      by_cases hbyte : byte = slash
      · subst hbyte
        apply append path last hlast
        have hpath := ih [] List.not_mem_nil
        rwa [List.append_nil] at hpath
      · apply ih
        rw [List.mem_cons, not_or]
        exact ⟨Ne.symm hbyte, hlast⟩
  have hpath := hbehind [] List.not_mem_nil
  rwa [List.append_nil] at hpath

theorem exists_last_piece (path : List UInt8) :
    ∃ directory piece, IsDirectory directory ∧ slash ∉ piece ∧ path = directory ++ piece := by
  induction path using path_induction with
  | piece piece hpiece => exact ⟨[], piece, Or.inl rfl, hpiece, rfl⟩
  | append front piece hpiece ih =>
    exact ⟨front ++ [slash], piece, Or.inr ⟨front, rfl⟩, hpiece, List.append_cons front slash piece⟩

/-! ### The last of the names -/

theorem pathNames_append_trailing (front : List UInt8) {trailing : List UInt8}
    (htrailing : IsTrailing trailing) :
    pathNames [] [] (front ++ trailing) = pathNames [] [] front := by
  obtain ⟨pieces, hpieces, rfl⟩ := htrailing
  induction pieces generalizing front with
  | nil => rw [List.flatten_nil, List.append_nil]
  | cons piece pieces ih =>
    obtain ⟨hpiece, hrest⟩ := List.forall_mem_cons.1 hpieces
    rw [List.flatten_cons, ← List.append_assoc, ih _ hrest]
    rcases hpiece with rfl | rfl
    · rw [pathNames_append]
      exact List.append_nil _
    · rw [pathNames_append]
      exact List.append_nil _

theorem exists_pathNames_directory {directory : List UInt8} (hdirectory : IsDirectory directory)
    (rest : List UInt8) :
    ∃ names, pathNames [] [] (directory ++ rest) = names ++ pathNames [] [] rest := by
  obtain rfl | ⟨way, rfl⟩ := hdirectory
  · exact ⟨[], rfl⟩
  · refine ⟨pathNames [] [] way, ?_⟩
    rw [List.append_assoc]
    exact pathNames_append way rest

theorem isTrailing_nil : IsTrailing [] := ⟨[], nofun, rfl⟩

theorem IsTrailing.append_piece {trailing piece : List UInt8} (htrailing : IsTrailing trailing)
    (hpiece : isName piece = false) : IsTrailing (trailing ++ slash :: piece) := by
  obtain ⟨pieces, hpieces, rfl⟩ := htrailing
  have hkind : slash :: piece = [slash] ∨ slash :: piece = [slash, dot] := by
    rcases isName_eq_false_iff.1 hpiece with rfl | rfl
    · exact Or.inl rfl
    · exact Or.inr rfl
  refine ⟨pieces ++ [slash :: piece], ?_, ?_⟩
  · intro other hother
    rcases List.mem_append.1 hother with hmem | hmem
    · exact hpieces other hmem
    · exact List.mem_singleton.1 hmem ▸ hkind
  · rw [List.flatten_append, List.flatten_singleton]

/-- Slashes and dots behind a path change nothing about its last name. -/
theorem IsLastName.append_piece {path name piece : List UInt8} (hlast : IsLastName path name)
    (hpiece : isName piece = false) : IsLastName (path ++ slash :: piece) name where
  ne_nil := hlast.ne_nil
  ne_dot := hlast.ne_dot
  ne_parent := hlast.ne_parent
  slash_not_mem := hlast.slash_not_mem
  split := by
    obtain ⟨directory, trailing, hdirectory, htrailing, rfl⟩ := hlast.split
    refine ⟨directory, _, hdirectory, htrailing.append_piece hpiece, ?_⟩
    rw [List.append_assoc]

theorem isLastName_append {directory name : List UInt8} (hdirectory : IsDirectory directory)
    (hslash : slash ∉ name) (hname : isName name = true) (hparent : name ≠ [dot, dot]) :
    IsLastName (directory ++ name) name where
  ne_nil := by
    rintro rfl
    cases hname
  ne_dot := by
    rintro rfl
    cases hname
  ne_parent := hparent
  slash_not_mem := hslash
  split := ⟨directory, [], hdirectory, isTrailing_nil, (List.append_nil _).symm⟩

theorem fileName?_of_concat {path name : List UInt8} {names : List (List UInt8)}
    (hnames : pathNames [] [] path = names ++ [name]) :
    fileName? path = if name = [dot, dot] then none else some name := by
  simp only [fileName?, hnames, List.getLast?_concat]

theorem fileName?_of_isLastName {path name : List UInt8} (hlast : IsLastName path name) :
    fileName? path = some name := by
  obtain ⟨directory, trailing, hdirectory, htrailing, rfl⟩ := hlast.split
  obtain ⟨names, hnames⟩ := exists_pathNames_directory hdirectory name
  have hname : pathNames [] [] name = [name] := by
    rw [pathNames_of_not_mem hlast.slash_not_mem]
    simp [isName, hlast.ne_nil, hlast.ne_dot]
  rw [hname, ← pathNames_append_trailing _ htrailing] at hnames
  rw [fileName?_of_concat hnames, if_neg hlast.ne_parent]

/-- A last piece that is a name is the last name, unless it is the parent directory. -/
theorem isLastName_of_concat {directory piece name : List UInt8} {names : List (List UInt8)}
    (hdirectory : IsDirectory directory) (hslash : slash ∉ piece) (hpiece : isName piece = true)
    (hnames : pathNames [] [] (directory ++ piece) = names ++ [piece])
    (hname : fileName? (directory ++ piece) = some name) :
    IsLastName (directory ++ piece) name := by
  rw [fileName?_of_concat hnames] at hname
  split at hname
  · cases hname
  · next hparent =>
    cases hname
    exact isLastName_append hdirectory hslash hpiece hparent

theorem isLastName_of_fileName? {path name : List UInt8} (hname : fileName? path = some name) :
    IsLastName path name := by
  induction path using path_induction with
  | piece piece hslash =>
    have hnames := pathNames_of_not_mem hslash
    cases hpiece : isName piece with
    | true =>
      rw [List.filter_cons_of_pos hpiece] at hnames
      have halone : pathNames [] [] ([] ++ piece) = [] ++ [piece] := hnames
      exact isLastName_of_concat (Or.inl rfl) hslash hpiece halone hname
    | false =>
      rw [List.filter_cons_of_neg (by rw [hpiece]; nofun)] at hnames
      simp only [fileName?, hnames] at hname
      cases hname
  | append front piece hslash ih =>
    have hnames := pathNames_append front piece
    rw [pathNames_of_not_mem hslash] at hnames
    cases hpiece : isName piece with
    | true =>
      rw [List.filter_cons_of_pos hpiece, List.append_cons front] at hnames
      rw [List.append_cons] at hname ⊢
      exact isLastName_of_concat (Or.inr ⟨front, rfl⟩) hslash hpiece hnames hname
    | false =>
      rw [List.filter_cons_of_neg (by rw [hpiece]; nofun), List.filter_nil,
        List.append_nil] at hnames
      apply IsLastName.append_piece _ hpiece
      apply ih
      rwa [fileName?, hnames, ← fileName?] at hname

theorem fileName?_eq_some_iff {path name : List UInt8} :
    fileName? path = some name ↔ IsLastName path name :=
  ⟨isLastName_of_fileName?, fileName?_of_isLastName⟩

end Chiptune.Playback
