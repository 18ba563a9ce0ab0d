import Allotment.Log.Appender

/-! What opening a log does to the files. A path leads to one place, whatever directories and files are there, and other
    paths may lead there too. A file that can be opened is at that place; and whether it can or not, every file that was
    there still is, with the lines that it had. So the displays and files of a workspace are lawful outputs. -/

namespace Allotment.Log

/-! ### Where a path leads -/

namespace Place

/-- The place one step further. -/
def next (place : Place) (part : PathPart) : Place :=
  match part.step with
  | .root => .root
  | .stay => place
  | .up => place.up
  | .name name => place.child name

/-- The place to which a path leads. -/
def follow (place : Place) (path : Path) : Place := path.foldl next place

end Place

/-- The place of the file that has a written path. -/
def Workspace.placeOf (workspace : Workspace) (text : String) : Place :=
  workspace.files.working.follow (Path.ofText text)

namespace Path
variable {path parent : Path} {name : String}

theorem follow_of_fileName? (hparent : path.parent? = some parent) (hname : path.fileName? = some name)
    (place : Place) : place.follow path = (place.follow parent).child name := by
  cases hlast : path.getLast? with
  | none =>
    rw [fileName?, hlast] at hname
    cases hname
  | some last =>
    obtain ⟨before, rfl⟩ := List.getLast?_eq_some_iff.mp hlast
    obtain ⟨step, reach⟩ := last
    rw [parent?, hlast] at hparent
    rw [fileName?, hlast] at hname
    cases step with
    | root | stay | up => cases hname
    | name other =>
      cases hname
      cases hparent
      rw [Place.follow, List.foldl_append, List.dropLast_concat]
      rfl

end Path

/-! ### Files that stay -/

namespace Files

/-- No file is lost, and no line of any. -/
structure Keeps (files later : Files) : Prop where
  working : later.working = files.working
  lines : ∀ place, later.linesOf place = files.linesOf place
  isFile : ∀ place, files.isFile place = true → later.isFile place = true

namespace Keeps
variable {files later last : Files}

theorem refl (files : Files) : Keeps files files := ⟨rfl, fun _ => rfl, fun _ h => h⟩

theorem trans (h : Keeps files later) (h' : Keeps later last) : Keeps files last :=
  ⟨h'.working.trans h.working, fun place => (h'.lines place).trans (h.lines place),
    fun place hfile => h'.isFile place (h.isFile place hfile)⟩

theorem of_contents (hworking : later.working = files.working) (h : later.contents = files.contents) :
    Keeps files later := by
  refine ⟨hworking, fun place => ?_, fun place hfile => ?_⟩
  · rw [linesOf, h, linesOf]
  · rwa [Files.isFile, h]

/-- A new file has no lines yet. -/
theorem append (files : Files) (place : Place) :
    Keeps files { files with contents := files.contents ++ [(place, [])] } := by
  refine ⟨rfl, fun other => ?_, fun other hfile => ?_⟩
  · rw [linesOf, linesOf, List.lookup_append]
    cases files.contents.lookup other with
    | some lines => rfl
    | none =>
      rw [Option.none_or, List.lookup_cons]
      split <;> rfl
  · rw [Files.isFile] at hfile ⊢
    rw [List.any_append, hfile, Bool.true_or]

end Keeps

variable {files later : Files} {path : Path} {place : Place} {name : String}

theorem eq_follow_of_walk {start : Place} (h : files.walk start path = .ok place) : place = start.follow path := by
  induction path generalizing start with
  | nil =>
    cases h
    rfl
  | cons part path ih =>
    obtain ⟨step, reach⟩ := part
    cases step with
    | root | stay | up => exact ih h
    | name name =>
      rw [walk] at h
      split at h
      · cases h
      · split at h
        · exact ih h
        · split at h <;> cases h

theorem eq_follow_of_directory (h : files.directory path = .ok place) : place = files.working.follow path := by
  rw [directory] at h
  split at h
  · exact eq_follow_of_walk h
  · cases h

theorem keeps_of_make (h : files.make path = .ok later) : Keeps files later := by
  cases hpossible : isPossible path with
  | false =>
    rw [make, hpossible] at h
    cases h
  | true =>
    cases habove : files.directory path.dropLast with
    | error fault =>
      rw [make, hpossible, habove] at h
      cases h
    | ok above =>
      rw [make, hpossible, habove] at h
      simp only [Bool.not_true, Bool.false_eq_true, if_false, bind, Except.bind, pure, Except.pure] at h
      split at h
      · split at h
        · cases h
        · cases h
          exact .of_contents rfl rfl
      · cases h

theorem keeps_makeAll (files : Files) (path : Path) : Keeps files (files.makeAll path).1 := by
  induction path using makeAll.induct files with
  | case1 =>
    rw [makeAll]
    exact .refl files
  | case2 path hne later hmake =>
    rw [makeAll, dif_neg hne, hmake]
    exact keeps_of_make hmake
  | case3 path hne hmake =>
    rw [makeAll, dif_neg hne, hmake]
    exact .refl files
  | case4 path hne hmake later habove ih =>
    rw [makeAll, dif_neg hne, hmake, habove]
    rwa [habove] at ih
  | case5 path hne hmake later habove last hagain ih =>
    rw [makeAll, dif_neg hne, hmake, habove]
    dsimp only
    rw [hagain]
    rw [habove] at ih
    exact ih.trans (keeps_of_make hagain)
  | case6 path hne hmake later habove fault hagain ih =>
    rw [makeAll, dif_neg hne, hmake, habove]
    dsimp only
    rw [hagain]
    rwa [habove] at ih

/-- A file that is created is there, at the place of its name in the directory of the path. -/
theorem keeps_of_create (h : files.create path name = .ok (later, place)) :
    Keeps files later ∧ place = (files.working.follow path).child name ∧ later.isFile place = true := by
  cases hpossible : isPossible (path.child name) with
  | false =>
    rw [create, hpossible] at h
    cases h
  | true =>
    cases hdirectory : files.directory path with
    | error fault =>
      rw [create, hpossible, hdirectory] at h
      cases h
    | ok directory =>
      obtain rfl := eq_follow_of_directory hdirectory
      rw [create, hpossible, hdirectory] at h
      simp only [Bool.not_true, Bool.false_eq_true, if_false, bind, Except.bind, pure, Except.pure] at h
      split at h
      · cases h
      · split at h
        · rename_i hfile
          cases h
          exact ⟨.refl files, rfl, hfile⟩
        · cases h
          refine ⟨.append files _, rfl, ?_⟩
          simp [isFile]

/-- What the attempt to open a file does, and what it gives if it succeeds. -/
theorem keeps_createWithin (files : Files) (path : Path) (name : String) :
    Keeps files (files.createWithin path name).1 ∧ ∀ place, (files.createWithin path name).2 = some place →
      place = (files.working.follow path).child name ∧ (files.createWithin path name).1.isFile place = true := by
  have hmade := keeps_makeAll files path
  rw [createWithin]
  split
  · rename_i hcreate
    obtain ⟨hkeeps, rfl, hfile⟩ := keeps_of_create hcreate
    refine ⟨hkeeps, ?_⟩
    rintro _ ⟨⟩
    exact ⟨rfl, hfile⟩
  · split
    · rename_i hmakeAll
      rw [hmakeAll] at hmade
      refine ⟨hmade, ?_⟩
      rintro _ ⟨⟩
    -- The directories have been made, and the file is tried again.
    · rename_i hmakeAll
      rw [hmakeAll] at hmade
      split
      · rename_i hcreate
        obtain ⟨hkeeps, rfl, hfile⟩ := keeps_of_create hcreate
        refine ⟨hmade.trans hkeeps, ?_⟩
        rintro _ ⟨⟩
        exact ⟨by rw [hmade.working], hfile⟩
      · refine ⟨hmade, ?_⟩
        rintro _ ⟨⟩

/-! ### Lines that are written -/

theorem lookup_write (files : Files) (place : Place) (lines : List String) (other : Place) :
    (files.write place lines).contents.lookup other =
      (files.contents.lookup other).map fun old => if other = place then old ++ lines else old := by
  rw [write]
  induction files.contents with
  | nil => rfl
  | cons first contents ih =>
    rw [List.map_cons, List.lookup_cons, List.lookup_cons, ih]
    by_cases hfirst : other = first.1
    · subst hfirst
      simp
    · rw [beq_eq_false_iff_ne.mpr hfirst]

theorem isSome_lookup (files : Files) (place : Place) :
    (files.contents.lookup place).isSome = files.isFile place := by
  rw [isFile]
  induction files.contents with
  | nil => rfl
  | cons first contents ih =>
    rw [List.lookup_cons, List.any_cons, ← ih, BEq.comm]
    cases first.1 == place <;> rfl

theorem isFile_write (files : Files) (place : Place) (lines : List String) (other : Place) :
    (files.write place lines).isFile other = files.isFile other := by
  rw [← isSome_lookup, lookup_write, Option.isSome_map, isSome_lookup]

/-- What is written to a file that is there stands at its end. -/
theorem linesOf_write (hfile : files.isFile place = true) (lines : List String) (other : Place) :
    (files.write place lines).linesOf other = files.linesOf other ++ if place = other then lines else [] := by
  rw [linesOf, lookup_write, linesOf]
  by_cases hsame : place = other
  · subst hsame
    rw [← isSome_lookup] at hfile
    obtain ⟨old, hold⟩ := Option.isSome_iff_exists.mp hfile
    rw [hold, if_pos rfl]
    simp
  · rw [if_neg hsame, List.append_nil]
    simp [Ne.symm hsame]

end Files

/-! ### Workspaces -/

namespace Workspace
variable {workspace : Workspace} {directory : Path} {name text : String} {sink : Sink Place}

/-- What is opened is the file of the given name in the directory of the path. -/
theorem eq_of_openFile (h : (workspace.openFile directory name).2 = some sink) :
    sink = .file ((workspace.files.working.follow directory).child name) ∧
      (workspace.openFile directory name).1.isOpen sink = true := by
  obtain ⟨-, hopened⟩ := Files.keeps_createWithin workspace.files directory name
  rw [openFile] at h ⊢
  obtain ⟨place, hplace, rfl⟩ := Option.map_eq_some_iff.mp h
  obtain ⟨hfollow, hfile⟩ := hopened place hplace
  exact ⟨congrArg Sink.file hfollow, hfile⟩

/-- Names that lead to one place open one file. -/
theorem eq_of_openLog (h : (openLog workspace text).2 = .ok sink) : sink = .file (workspace.placeOf text) := by
  rw [openLog] at h
  split at h
  · cases h
  · cases h
  · rename_i parent name hparent hname
    split at h
    · rename_i hopen
      cases h
      rw [placeOf, Path.follow_of_fileName? hparent hname]
      exact (eq_of_openFile (congrArg Prod.snd hopen)).1
    · cases h

theorem linesAt_append (h : workspace.isOpen sink = true) (line : String) (other : Sink Place) :
    (workspace.append sink line).linesAt other = workspace.linesAt other ++ if sink = other then [line] else [] := by
  cases sink with
  | display display => cases display <;> cases other with
    | display shown => cases shown <;> simp [append, linesAt]
    | file place => simp [append, linesAt]
  | file place =>
    cases other with
    | display shown => cases shown <;> simp [append, linesAt]
    | file other =>
      rw [append, linesAt, Files.linesOf_write h, linesAt]
      simp only [Sink.file.injEq]

theorem isOpen_append (workspace : Workspace) (sink : Sink Place) (line : String) (other : Sink Place) :
    (workspace.append sink line).isOpen other = workspace.isOpen other := by
  cases sink with
  | display display => cases display <;> cases other <;> rfl
  | file place =>
    cases other with
    | display shown => rfl
    | file other => exact Files.isFile_write _ _ _ other

instance : LawfulOutputs Workspace Place where
  isOpen_display _ _ := rfl
  isOpen_openFile workspace directory name sink h := by
    cases sink with
    | display shown => rfl
    | file place => exact (Files.keeps_createWithin workspace.files directory name).1.isFile place h
  isOpen_of_openFile _ _ _ _ h := (eq_of_openFile h).2
  isOpen_append workspace sink line other h := (isOpen_append workspace sink line other).trans h
  linesAt_openFile workspace directory name sink := by
    cases sink with
    | display shown => cases shown <;> rfl
    | file place => exact (Files.keeps_createWithin workspace.files directory name).1.lines place
  linesAt_append_self workspace sink line h := by
    have hlines := linesAt_append h line sink
    rwa [if_pos rfl] at hlines
  linesAt_append_of_ne workspace sink line other h hne := by
    have hlines := linesAt_append h line other
    rwa [if_neg (Ne.symm hne), List.append_nil] at hlines

end Workspace
end Allotment.Log
