import Mathlib
import Lexis.Proofs.Workspace.Tree

/-!
# Loading loses and duplicates nothing

The sources of a workspace that was loaded from a tree of directories and files are the files with
the extension of sources, each once and in depth-first order; a file is left out only if its name or
that of a directory on the way begins with a full stop, or if the path of a directory on the way is
so long that nothing can be asked about it. Every module is a directory that a source lies in.

- `SourceUnit.IsOf`: a source is that of a file.
- `Module.IsOf`: a module is that of a directory.
- `load_sources_of_tree`: the sources, the modules and the names of a loaded workspace.
- `load_leaves_out_deep_directory`: the one way to lose a source, at a root with a long path.
-/

namespace Lexis

/-- A source is that of a file: at its path, called after it, and with its text as model. -/
structure SourceUnit.IsOf (source : SourceUnit SourceText) (options : LoadOptions) (path : Path)
    (contents : List UInt8) : Prop where
  path_eq : source.path = path
  stem_eq : path.stem? = some (Text.Utf8.encode source.name.text)
  model_eq : ∃ text, Text.Utf8.decode? contents = some text
    ∧ source.model = ⟨if options.normalizeLineEndings then Text.dropReturns text else text⟩

/-- A module is that of a directory: at its path and called after it. Each of its sources and
submodules is kept under its own name. -/
structure Module.IsOf (module : Module SourceText) (path : Path) : Prop where
  path_eq : module.path = path
  fileName_eq : path.fileName? = some (Text.Utf8.encode module.name.text)
  sources_key : ∀ key source, (key, source) ∈ module.sources → key = source.name
  submodules_key : ∀ key inner, (key, inner) ∈ module.submodules → key = inner.name

namespace FileSystem

variable {files : FileSystem} {options : LoadOptions} {path root : Path} {tree : FileNode}
  {source : SourceUnit SourceText} {module : Module SourceText} {names : List FileName}
  {workspace : Workspace SourceText}

/-- A source that is read where a tree is no directory is that of a file. -/
theorem Holds.exists_isOf_of_readSource (h : files.Holds path tree)
    (hfile : files.isDirectory path = false) (hread : files.readSource options path = .ok source) :
    ∃ contents, tree = .file contents ∧ source.IsOf options path contents := by
  obtain ⟨hpath, hstem, hcontents⟩ := readSource_eq_ok_iff.1 hread
  rw [readContents] at hcontents
  split at hcontents
  · cases hcontents
  next text htext =>
    have hfault : path.fault? = none := by
      cases hfault : path.fault? with
      | none => rfl
      | some fault => rw [readText, hfault] at htext; cases htext
    -- a tree without links that is no directory is a file
    cases tree with
    | link target => exact absurd (FileNode.at?_nil _) (h.linkFree [] target)
    | directory entries =>
      have hlength := h.fault?_eq_none_iff.1 hfault
      rw [h.isDirectory_iff.2 ⟨⟨entries, rfl⟩, hlength⟩] at hfile
      cases hfile
    | file contents =>
      rw [h.showsBelow.shows.readText_file hfault] at htext
      -- its bytes are UTF-8, or they would not have been read
      cases hdecode : Text.Utf8.decode? contents with
      | none =>
        rw [hdecode] at htext
        cases htext
      | some text =>
        rw [hdecode] at htext
        cases htext
        exact ⟨contents, rfl, hpath, hstem, text, hdecode, (Except.ok.inj hcontents).symm⟩

theorem hasExtension_iff {extension : List Char} :
    path.hasExtension extension = true ↔ path.extension? = some (Text.Utf8.encode extension) := by
  rw [Path.hasExtension, beq_iff_eq, Option.bind_eq_some_iff]
  simp only [Text.Utf8.decode?_eq_some_iff]
  constructor
  · rintro ⟨bytes, hbytes, hencode⟩
    rw [hbytes, hencode]
  · intro hbytes
    exact ⟨_, hbytes, rfl⟩

/-- The names that lead to a source which is loaded: those of a file with the extension of sources,
none of which begins with a full stop, as far as the path of the directory at the end is short of
the limit. -/
theorem Holds.finds_iff (h : files.Holds root tree)
    (hload : files.load options root = .ok workspace) :
    files.Finds options root names
      ↔ (∃ contents, tree.at? names = some (.file contents))
        ∧ (root.joinAll names).extension? = some (Text.Utf8.encode options.extension)
        ∧ (∀ name ∈ names, name.bytes.head? ≠ some fullStop)
        ∧ (root.joinAll names.dropLast).bytes.length < Path.lengthLimit := by
  constructor
  · intro hfinds
    have hends := hfinds
    obtain ⟨hreaches, hfile, hextension⟩ := hends
    obtain ⟨⟨node, hnode⟩, -, hshort⟩ := h.reaches_iff.1 hreaches
    -- whatever is found was read as a source, so there is a file
    obtain ⟨ways, hsources⟩ := exists_sources_of_load h.listsOnce hload
    have hway := (hsources.mem_iff names).2 hfinds
    obtain ⟨source, hread⟩ := exists_of_mem_left hsources.read hway
    obtain ⟨contents, rfl, -⟩ := (h.of_at? hnode).exists_isOf_of_readSource hfile hread
    obtain ⟨hroot, listed, loaded, hlisted, hloaded, -⟩ := load_eq_ok_iff.1 hload
    cases names with
    -- the root is a directory
    | nil =>
      rw [Path.joinAll_nil, hroot] at hfile
      cases hfile
    | cons name more =>
      obtain ⟨hname, hmore⟩ := (reaches_directory_iff hroot hlisted).1 hreaches
      obtain ⟨one, hone⟩ := exists_of_mem_left hloaded hname
      exact ⟨⟨contents, hnode⟩, hasExtension_iff.1 hextension,
        head?_ne_of_finds hone ⟨hmore, hfile, hextension⟩, hshort (List.cons_ne_nil _ _)⟩
  · -- only names in UTF-8 can be hidden, and these have no full stop in front
    rintro ⟨⟨contents, hnode⟩, hextension, hvisible, hshort⟩
    have hreaches : files.Reaches root names := by
      refine h.reaches_iff.2 ⟨⟨_, hnode⟩, fun name hname => ?_, fun _ => hshort⟩
      refine Bool.eq_false_iff.2 fun hhidden => ?_
      exact hvisible name hname (FileName.isHidden_iff.1 hhidden).1
    exact ⟨hreaches, (h.of_at? hnode).showsBelow.shows.isDirectory_file,
      hasExtension_iff.2 hextension⟩

/-- Every module of a loaded workspace is that of its directory, and a source lies in it. -/
theorem isOf_of_holds (hload : files.load options root = .ok workspace)
    (hmodule : workspace.Holds module) :
    ∃ names, names ≠ [] ∧ files.Reaches root names ∧ files.isDirectory (root.joinAll names) = true
      ∧ module.IsOf (root.joinAll names) ∧ module.allSources ≠ [] := by
  obtain ⟨names, hnames, hreaches, hdirectory, hmade⟩ := exists_of_holds hload hmodule
  obtain ⟨-, loaded, -, -, hof, hname, -⟩ := exists_of_loadModule hmade
  refine ⟨names, hnames, hreaches, hdirectory, ⟨hof.path_eq, hname, ?_, ?_⟩, ?_⟩
  · intro key source hmem
    obtain ⟨_, -, hpair⟩ := List.mem_map.1 (hof.sources_perm.mem_iff.1 hmem)
    cases hpair
    rfl
  · intro key inner hmem
    obtain ⟨_, -, hpair⟩ := List.mem_map.1 (hof.submodules_perm.mem_iff.1 hmem)
    cases hpair
    rfl
  · exact allSources_ne_nil_of_loadModule _ hdirectory hmade

end FileSystem

/-! ## A tree, and roots that lead to it -/

/-- The path `w`, followed by `/.` a number of times: another way to write `w`. -/
def dottedPath (times : Nat) : Path :=
  ⟨0x77 :: (List.replicate times [slash, fullStop]).flatten⟩

theorem segments_dotted (times : Nat) {b : UInt8} (hb : b ≠ slash) :
    Path.segments (b :: (List.replicate times [slash, fullStop]).flatten)
      = [b] :: List.replicate times [fullStop] := by
  induction times generalizing b with
  | zero => exact Path.segments_of_not_mem (by simpa using hb.symm)
  | succ times ih =>
    have hsplit : b :: (List.replicate (times + 1) [slash, fullStop]).flatten
        = [b] ++ slash :: (fullStop :: (List.replicate times [slash, fullStop]).flatten) := rfl
    rw [hsplit, Path.segments_append_slash, ih (by decide),
      Path.segments_of_not_mem (by simpa using hb.symm)]
    rfl

theorem walk_replicate_here (onLink : Place → List Component → Except FileFault Place.Target)
    (place : Place) (times : Nat) :
    Place.walk onLink (.directory place) (List.replicate times .here) = .ok (.directory place) := by
  induction times with
  | zero => rfl
  | succ times ih => exact ih

/-- However often it says where it is, such a path leads to the directory `w`. -/
theorem lookup_dottedPath {place : Place} {entries : Directory} (times : Nat)
    (h : Directory.find? [0x77] place.here = some (.directory entries)) :
    place.lookup (dottedPath times) = .ok (.directory (place.enter entries)) := by
  have hslash : (0x77 : UInt8) ≠ slash := by decide
  have hsteps : (dottedPath times).steps = .name [0x77] :: List.replicate times .here := by
    rw [Path.steps, dottedPath, segments_dotted times hslash, List.map_cons, List.map_replicate]
    rfl
  rw [Place.lookup, hsteps]
  show Place.walk (Place.follow 39) (.directory place) _ = _
  rw [Place.walk_name _ _ (by decide) h]
  exact walk_replicate_here _ _ _

theorem length_dottedPath (times : Nat) : (dottedPath times).bytes.length = 1 + times * 2 := by
  rw [dottedPath, List.length_cons, List.length_flatten, List.map_replicate,
    List.sum_replicate_nat]
  exact Nat.add_comm _ _

theorem null_not_mem_dottedPath (times : Nat) : 0 ∉ (dottedPath times).bytes := by
  intro hmem
  rcases List.mem_cons.1 hmem with hw | hmem
  · exact absurd hw (by decide)
  · obtain ⟨bytes, hbytes, hnull⟩ := List.mem_flatten.1 hmem
    rw [List.eq_of_mem_replicate hbytes] at hnull
    exact absurd hnull (by decide)

namespace LibraryTree

/-- What is loaded at the root `w`. -/
def wholeWorkspace : Workspace SourceText where
  root := dottedPath 0
  packages := [
    (⟨['a'], by decide⟩, .file ⟨(dottedPath 0).join a, ⟨['a'], by decide⟩, ⟨['b']⟩⟩),
    (⟨['l', 'i', 'b', 'r', 'a', 'r', 'y'], by decide⟩, .directory (.mk ((dottedPath 0).join library)
      ⟨['l', 'i', 'b', 'r', 'a', 'r', 'y'], by decide⟩
      [(xName, ⟨(dottedPath 0).joinAll [library, x], xName, ⟨['c']⟩⟩)] []))]

end LibraryTree

/-! ## A root with a long path -/

namespace LibraryTree

theorem holds (times : Nat) :
    place.fileSystem.Holds (dottedPath times) (.directory entries) :=
  FileSystem.holds_of_lookup (lookup_dottedPath times rfl) (FileNode.distinct_of_isPlain isPlain)
    (FileNode.linkFree_of_isPlain isPlain) (null_not_mem_dottedPath times)

/-- The source `a.tr` as it is read below a root. -/
def source (root : Path) : SourceUnit SourceText :=
  ⟨root.join a, ⟨['a'], by decide⟩, ⟨['b']⟩⟩

/-- What is loaded where `library` is left out. -/
def workspace (root : Path) : Workspace SourceText :=
  ⟨root, [((source root).name, .file (source root))]⟩

theorem sources_workspace (root : Path) : (workspace root).sources = [source root] :=
  List.mergeSort_singleton _

variable {files : FileSystem} {root : Path}

theorem loadEntry_a (h : files.Holds root (.directory entries))
    (hshort : root.bytes.length + 5 < Path.lengthLimit) :
    files.loadEntry .standard (root.join a) = .ok (some (.file (source root))) := by
  have ha : (FileNode.directory entries).at? [a] = some (.file [0x62]) := rfl
  have hfile : files.Holds (root.join a) (.file [0x62]) := h.of_at? ha
  have hfault : (root.join a).fault? = none := by
    have hbound := (root.length_join_bounds a).2
    have hfour : a.bytes.length = 4 := rfl
    exact hfile.fault?_eq_none_iff.2 (by omega)
  have hread : files.readText (root.join a) = .ok ['b'] := by
    rw [hfile.showsBelow.shows.readText_file hfault]
    cbv
  have hsource : files.readSource .standard (root.join a) = .ok (source root) := by
    refine FileSystem.readSource_eq_ok_iff.2 ⟨rfl, ?_, ?_⟩
    · rw [Path.stem?_join]
      rfl
    · rw [FileSystem.readContents, hread]
      rfl
  have hextension : (root.join a).hasExtension ['t', 'r'] = true := by
    rw [FileSystem.hasExtension_iff, Path.extension?_join]
    rfl
  rw [FileSystem.loadEntry_of_file hfile.showsBelow.shows.isDirectory_file, hsource]
  exact if_pos hextension

/-- Where the path of `library` is too long, it is taken for a file that is no source. -/
theorem loadEntry_library (h : files.Holds root (.directory entries))
    (hlong : Path.lengthLimit ≤ root.bytes.length + 7) :
    files.loadEntry .standard (root.join library) = .ok none := by
  have hlibrary : (FileNode.directory entries).at? [library]
      = some (.directory [(x, .file [0x63])]) := rfl
  have hinner : files.Holds (root.join library) (.directory [(x, .file [0x63])]) :=
    h.of_at? hlibrary
  have hfile : files.isDirectory (root.join library) = false := by
    have hbound := (root.length_join_bounds library).1
    have hseven : library.bytes.length = 7 := rfl
    refine Bool.eq_false_iff.2 fun hdirectory => ?_
    have hlength := (hinner.isDirectory_iff.1 hdirectory).2
    omega
  have hextension : ¬ (root.join library).hasExtension ['t', 'r'] = true := by
    rw [FileSystem.hasExtension_iff, Path.extension?_join]
    decide
  rw [FileSystem.loadEntry_of_file hfile]
  exact if_neg hextension

theorem load_of_long (h : files.Holds root (.directory entries))
    (hshort : root.bytes.length + 5 < Path.lengthLimit)
    (hlong : Path.lengthLimit ≤ root.bytes.length + 7) :
    files.load .standard root = .ok (workspace root) := by
  have hroot : root.bytes.length < Path.lengthLimit := by omega
  have hlisted : files.visibleEntries root = .ok [a, library] := by
    rw [h.visibleEntries_eq hroot]
    cbv
  refine FileSystem.load_eq_ok_iff.2 ⟨h.isDirectory_iff.2 ⟨⟨_, rfl⟩, hroot⟩, [a, library],
    [some (.file (source root)), none], hlisted, ?_, rfl⟩
  exact .cons (loadEntry_a h hshort) (.cons (loadEntry_library h hlong) .nil)

end LibraryTree

/-! ## Loaded trees -/

/-- **Loading loses and duplicates nothing.** Below a directory whose tree has no links, the sources
of a loaded workspace are, each once and in depth-first order of the names, the files with the
extension of sources that no name with a full stop in front and no directory with a path as long as
the limit leads to. Each is called after its file and has its text. Every module is that of a
directory of the tree, with at least one source in it, and every map keeps what it has under its own
name. -/
theorem load_sources_of_tree (place found : Place) (root : Path) (options : LoadOptions)
    (workspace : Workspace SourceText) (hroot : place.lookup root = .ok (.directory found))
    (hdistinct : found.tree.Distinct) (hfree : found.tree.LinkFree)
    (hload : place.fileSystem.load options root = .ok workspace) :
    (∃ ways : List (List FileName),
      (ways.Pairwise fun a b => List.compareLex FileName.order a b = .lt)
        ∧ (∀ names, names ∈ ways
          ↔ (∃ contents, found.tree.at? names = some (.file contents))
            ∧ (root.joinAll names).extension? = some (Text.Utf8.encode options.extension)
            ∧ (∀ name ∈ names, name.bytes.head? ≠ some fullStop)
            ∧ (root.joinAll names.dropLast).bytes.length < Path.lengthLimit)
        ∧ List.Forall₂ (fun names source => ∃ contents,
          found.tree.at? names = some (.file contents)
            ∧ source.IsOf options (root.joinAll names) contents) ways workspace.sources)
      ∧ (∀ module, workspace.Holds module → module.allSources ≠ []
        ∧ ∃ names entries, names ≠ [] ∧ found.tree.at? names = some (.directory entries)
          ∧ module.IsOf (root.joinAll names))
      ∧ ∀ key package, (key, package) ∈ workspace.packages → key = package.name := by
  obtain ⟨hdirectory, -, loaded, -, -, hadded⟩ := FileSystem.load_eq_ok_iff.1 hload
  have hnull : 0 ∉ root.bytes := by
    rw [FileSystem.isDirectory, Bool.and_eq_true, Option.isNone_iff_eq_none] at hdirectory
    exact (Path.fault?_eq_none_iff.1 hdirectory.1).1
  -- from here on the place is forgotten, and the system holds the tree
  have hholds := FileSystem.holds_of_lookup hroot hdistinct hfree hnull
  refine ⟨?_, fun module hmodule => ?_, fun key package hmem => ?_⟩
  · -- the sources are those that names lead to
    obtain ⟨ways, hsources⟩ := FileSystem.exists_sources_of_load hholds.listsOnce hload
    refine ⟨ways, hsources.ascending, fun names => ?_, ?_⟩
    · rw [hsources.mem_iff, hholds.finds_iff hload]
    · have hmembers := (List.forall₂_and_left ways _).2 ⟨fun _ hmem => hmem, hsources.read⟩
      refine hmembers.imp fun names source hsource => ?_
      obtain ⟨hreaches, hfile, -⟩ := (hsources.mem_iff names).1 hsource.1
      obtain ⟨⟨node, hnode⟩, -⟩ := hholds.reaches_iff.1 hreaches
      obtain ⟨contents, rfl, hof⟩ :=
        (hholds.of_at? hnode).exists_isOf_of_readSource hfile hsource.2
      exact ⟨contents, hnode, hof⟩
  · -- a module comes of a directory with a source in it
    obtain ⟨names, hnames, hreaches, hinner, hof, hsources⟩ :=
      FileSystem.isOf_of_holds hload hmodule
    obtain ⟨⟨node, hnode⟩, -⟩ := hholds.reaches_iff.1 hreaches
    obtain ⟨⟨entries, rfl⟩, -⟩ := (hholds.of_at? hnode).isDirectory_iff.1 hinner
    exact ⟨hsources, names, entries, hnames, hnode, hof⟩
  · -- packages are kept under their own names
    obtain ⟨-, hperm, -⟩ := Workspace.of_addPackages hadded
    obtain ⟨_, -, hpair⟩ := List.mem_map.1 (hperm.mem_iff.1 hmem)
    cases hpair
    rfl

open LibraryTree in
/-- At the root `w` the sources `a.tr` and `library/x.tr` are found. -/
theorem load_sources_of_libraryTree :
    place.fileSystem.load .standard (dottedPath 0) = .ok wholeWorkspace
      ∧ ∃ ways, [a] ∈ ways ∧ [library, x] ∈ ways ∧ [library] ∉ ways
        ∧ List.Forall₂ (fun names source => source.path = (dottedPath 0).joinAll names) ways
          wholeWorkspace.sources := by
  have hload : place.fileSystem.load .standard (dottedPath 0) = .ok wholeWorkspace := by cbv
  obtain ⟨⟨ways, -, hmem, hsources⟩, -⟩ := load_sources_of_tree place
    (place.enter entries) (dottedPath 0) .standard wholeWorkspace (lookup_dottedPath 0 rfl)
    (FileNode.distinct_of_isPlain isPlain) (FileNode.linkFree_of_isPlain isPlain) hload
  refine ⟨hload, ways, ?_, ?_, ?_, ?_⟩
  · exact (hmem [a]).2 ⟨⟨_, rfl⟩, rfl, by decide, by decide⟩
  · exact (hmem [library, x]).2 ⟨⟨_, rfl⟩, rfl, by decide, by decide⟩
  · intro hlibrary
    obtain ⟨⟨contents, hfile⟩, -⟩ := (hmem [library]).1 hlibrary
    cases hfile
  · refine hsources.imp fun names source hsource => ?_
    obtain ⟨contents, -, hof⟩ := hsource
    exact hof.path_eq

open LibraryTree in
/-- A root that is written with 4089 bytes leads to the directory `w`, but the path of `library`
below it is too long to lead anywhere. So loading succeeds, without the source in `library`. -/
theorem load_leaves_out_deep_directory :
    ∃ workspace, place.fileSystem.load .standard (dottedPath 2044) = .ok workspace
      ∧ (FileNode.directory entries).at? [library, x] = some (.file [0x63])
      ∧ ((dottedPath 2044).joinAll [library, x]).extension?
        = some (Text.Utf8.encode LoadOptions.standard.extension)
      ∧ (∀ name ∈ [library, x], name.bytes.head? ≠ some fullStop)
      ∧ ∀ source ∈ workspace.sources, source.path ≠ (dottedPath 2044).joinAll [library, x] := by
  have hlength : (dottedPath 2044).bytes.length = 4089 := length_dottedPath 2044
  have hholds := holds 2044
  generalize dottedPath 2044 = root at hlength hholds ⊢
  have hload := load_of_long hholds (by rw [hlength]; decide) (by rw [hlength]; decide)
  refine ⟨_, hload, rfl, ?_, by decide, fun other hother heq => ?_⟩
  · rw [Path.joinAll_cons, Path.joinAll_cons, Path.joinAll_nil, Path.extension?_join]
    rfl
  · rw [sources_workspace] at hother
    obtain rfl := List.mem_singleton.1 hother
    have hcomponents := congrArg Path.components heq
    rw [source, Path.components_join, Path.components_joinAll] at hcomponents
    exact absurd (List.append_cancel_left hcomponents) (by decide)

end Lexis
