import Chiptune.Directory

/-!
# Writing to a directory

A write changes the file of one name and no other (`find?_write_self`, `find?_write_of_ne`). A path
under which a file can be created leads to that file once it is written (`lookUp_write`), and whether
it can be created does not depend on the files that are there (`nameToWrite_of_ok`): all of them lie
at one level, so none is ever on the way to another.
-/

namespace Chiptune.Directory

/-! ### Files by name -/

/-- The entry of a file once `name` is written. -/
def overwrite (name : String) (bytes : List UInt8) (file : String × List UInt8) :
    String × List UInt8 :=
  if file.1 == name then (name, bytes) else file

@[simp] theorem overwrite_name (name : String) (bytes : List UInt8) (file : String × List UInt8) :
    (overwrite name bytes file).1 = file.1 := by
  unfold overwrite
  split
  · next hname => exact (eq_of_beq hname).symm
  · rfl

theorem find?_overwrite (directory : Directory) (name other : String) (bytes : List UInt8) :
    find? ⟨directory.files.map (overwrite name bytes)⟩ other =
      (directory.files.find? (·.1 == other)).map fun file => (overwrite name bytes file).2 := by
  have hnames : (fun file : String × List UInt8 => file.1 == other) ∘ overwrite name bytes =
      (·.1 == other) := by
    funext file
    exact congrArg (· == other) (overwrite_name name bytes file)
  rw [find?, List.find?_map, hnames, Option.map_map]
  rfl

@[simp] theorem find?_write_self (directory : Directory) (name : String) (bytes : List UInt8) :
    (directory.write name bytes).find? name = some bytes := by
  unfold write
  split
  · next hfound =>
    rw [find?, Option.isSome_map] at hfound
    obtain ⟨file, hfile⟩ := Option.isSome_iff_exists.1 hfound
    have hname := List.find?_some hfile
    refine (find?_overwrite directory name name bytes).trans ?_
    rw [hfile, Option.map_some, overwrite, if_pos hname]
  · next hfound =>
    rw [find?, Option.isSome_map, Option.not_isSome_iff_eq_none] at hfound
    simp [find?, List.find?_append, hfound]

theorem find?_write_of_ne (directory : Directory) {name other : String} (hne : other ≠ name)
    (bytes : List UInt8) : (directory.write name bytes).find? other = directory.find? other := by
  unfold write
  split
  · refine (find?_overwrite directory name other bytes).trans ?_
    apply Option.map_congr
    intro file hfile
    have hother := List.find?_some hfile
    rw [overwrite, if_neg (by simpa [eq_of_beq hother] using hne)]
  · have hlast : ((name == other) = false) := by simpa using Ne.symm hne
    simp [find?, List.find?_append, hlast]

/-! ### Files by path -/

/-- A way that can be followed leads through dots only, and so does not depend on the files. -/
theorem walk_of_ok {directory : Directory} (directory' : Directory) {home home' : Bool}
    {names : List (List Char)} (hwalk : directory.walk home names = .ok home') :
    directory'.walk home names = .ok home' := by
  induction names generalizing home with
  | nil => exact hwalk
  | cons name names ih =>
    unfold walk at hwalk ⊢
    by_cases hdot : (name == ['.']) = true
    · rw [if_pos hdot] at hwalk ⊢
      exact ih hwalk
    · rw [if_neg hdot] at hwalk ⊢
      by_cases hdots : (name == ['.', '.']) = true
      · rw [if_pos hdots] at hwalk ⊢
        exact ih hwalk
      · -- Any other name would have to be a directory, and there is none.
        rw [if_neg hdots] at hwalk
        split at hwalk
        · cases hwalk
        · split at hwalk <;> cases hwalk

theorem unless_eq_ok_iff {α : Type} {condition : Prop} [Decidable condition] {fault : PathFault}
    {result : Except PathFault α} {a : α} :
    (if condition then .error fault else result) = .ok a ↔ ¬ condition ∧ result = .ok a := by
  by_cases h : condition <;> simp [h]

/-- When a path can be written to, and to which name. -/
theorem nameToWrite_eq_ok_iff {directory : Directory} {text name : String} :
    directory.nameToWrite text = .ok name ↔ Path.check text = .ok () ∧
      ∃ last, (Path.ofString text).names.getLast? = some last ∧
        directory.walk (!(Path.ofString text).absolute) (Path.ofString text).names.dropLast =
          .ok true ∧
        Path.isDots last = false ∧ (Path.ofString text).endsInSlash = false ∧
        Path.isTooLong last = false ∧ String.ofList last = name := by
  simp only [nameToWrite, bind, Except.bind, throw, throwThe, MonadExceptOf.throw, pure, Except.pure]
  cases Path.check text with
  | error fault => simp
  | ok checked =>
    cases (Path.ofString text).names.getLast? with
    | none => simp
    | some last =>
      cases directory.walk (!(Path.ofString text).absolute) (Path.ofString text).names.dropLast with
      | error fault => simp
      | ok home =>
        cases home with
        | false => simp [unless_eq_ok_iff]
        | true => simp [unless_eq_ok_iff, and_assoc]

theorem nameToWrite_of_ok {directory : Directory} (directory' : Directory) {text name : String}
    (hname : directory.nameToWrite text = .ok name) : directory'.nameToWrite text = .ok name := by
  rw [nameToWrite_eq_ok_iff] at hname ⊢
  obtain ⟨hcheck, last, hlast, hwalk, hrest⟩ := hname
  exact ⟨hcheck, last, hlast, walk_of_ok directory' hwalk, hrest⟩

theorem lookUp_write {directory : Directory} {text name : String}
    (hname : directory.nameToWrite text = .ok name) (bytes : List UInt8) :
    (directory.write name bytes).lookUp text = .ok (.file bytes) := by
  obtain ⟨hcheck, last, hlast, hwalk, hdots, hslash, hlong, rfl⟩ := nameToWrite_eq_ok_iff.1 hname
  have hwalk' := walk_of_ok (directory.write (String.ofList last) bytes) hwalk
  simp [lookUp, hcheck, hlast, hwalk', hdots, hslash, hlong, bind, Except.bind, pure, Except.pure]

end Chiptune.Directory
