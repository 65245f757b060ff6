import Lexis.Proofs.File.Tree
import Lexis.Proofs.Workspace.Sources

/-!
# Loading trees

Where a tree without links is seen, loading comes by the entries of the tree whose names, and those
of the directories on the way, are not hidden, as far as the paths of these directories are short of
the limit.

- `FileName.isHidden_iff`: a name is hidden if it begins with a full stop and is UTF-8.
- `FileSystem.head?_ne_of_finds`: no name that begins with a full stop leads to a source that can be
  loaded, hidden or not.
- `FileSystem.Holds`: a tree without links or double names is seen at a path.
- `FileSystem.Holds.reaches_iff`: what loading comes by.
- `FileSystem.Holds.listsOnce`: no name is listed twice.
-/

namespace Lexis

/-! ## Names that begin with a full stop -/

theorem Text.Utf8.encode_fullStop_cons (text : List Char) :
    Text.Utf8.encode ('.' :: text) = fullStop :: Text.Utf8.encode text := rfl

theorem Text.Utf8.decode?_fullStop_cons (bytes : List UInt8) :
    Text.Utf8.decode? (fullStop :: bytes) = (Text.Utf8.decode? bytes).map ('.' :: ·) :=
  Text.Utf8.decode?_encodeChar_append '.' bytes

/-- A name is hidden if it begins with a full stop and is UTF-8. -/
theorem FileName.isHidden_iff {name : FileName} :
    name.isHidden = true
      ↔ name.bytes.head? = some fullStop ∧ (Text.Utf8.decode? name.bytes).isSome := by
  rw [isHidden]
  constructor
  · intro h
    split at h
    next c text hdecode =>
      obtain rfl : c = '.' := by simpa using h
      rw [← Text.Utf8.decode?_eq_some_iff.1 hdecode, Text.Utf8.encode_fullStop_cons]
      refine ⟨rfl, ?_⟩
      rw [Text.Utf8.decode?_fullStop_cons, Text.Utf8.decode?_encode]
      rfl
    · cases h
  · rintro ⟨hhead, hdecode⟩
    obtain ⟨rest, hrest⟩ := List.head?_eq_some_iff.1 hhead
    obtain ⟨text, htext⟩ := Option.isSome_iff_exists.1 hdecode
    rw [htext]
    rw [hrest, Text.Utf8.decode?_fullStop_cons] at htext
    obtain ⟨after, -, rfl⟩ := Option.map_eq_some_iff.1 htext
    rfl

/-- No name of an entry that says the name of a unit first begins with a full stop. -/
theorem UnitName.head?_encode_ne (name : UnitName) (more : List UInt8) :
    (Text.Utf8.encode name.text ++ more).head? ≠ some fullStop := by
  intro hhead
  obtain ⟨c, rest, hcons, hc⟩ := name.exists_cons
  obtain ⟨b, tail, hencode, hdecode⟩ := Text.Utf8.decodeHead_encodeChar c []
  rw [hcons, Text.Utf8.encode, List.flatMap_cons, hencode] at hhead
  obtain rfl : b = fullStop := by simpa using hhead
  have hstop : Text.Utf8.decodeHead fullStop (tail ++ []) = (some '.', tail ++ []) := rfl
  rw [hstop, Prod.mk.injEq, Option.some.injEq] at hdecode
  rw [← hdecode.1] at hc
  exact absurd hc (by decide)

namespace FileSystem

variable {files : FileSystem} {options : LoadOptions} {path : Path} {name : FileName}
  {names : List FileName} {found : Option (Package SourceText)}

/-- The name of a directory that is loaded is the name of a unit. -/
theorem exists_bytes_of_directory (hdirectory : files.isDirectory (path.join name) = true)
    (h : files.loadEntry options (path.join name) = .ok found) :
    ∃ unit : UnitName, name.bytes = Text.Utf8.encode unit.text := by
  rw [loadEntry_of_isDirectory hdirectory] at h
  obtain ⟨made, hmade, -⟩ := map_eq_ok_iff.1 h
  obtain ⟨unit, -, -, -, hname, -⟩ := loadModule_eq_ok_iff.1 hmade
  rw [Path.fileName?_join] at hname
  exact ⟨unit, Option.some.inj hname⟩

/-- A name with the extension of sources is a stem, a full stop and the extension. -/
theorem bytes_of_hasExtension {extension : List Char}
    (h : (path.join name).hasExtension extension = true) :
    ∃ stem, (path.join name).stem? = some stem
      ∧ name.bytes = stem ++ fullStop :: Text.Utf8.encode extension := by
  rw [Path.hasExtension, Path.extension?_join, beq_iff_eq, Option.bind_eq_some_iff] at h
  obtain ⟨bytes, hcut, hdecode⟩ := h
  refine ⟨_, Path.stem?_join path name, ?_⟩
  rw [Text.Utf8.decode?_eq_some_iff.1 hdecode]
  exact (Path.cutExtension_eq_iff.1 (Prod.ext rfl hcut)).2.2

/-- The name of a source's file is the name of the source, a full stop and the extension. -/
theorem bytes_of_readSource {source : SourceUnit SourceText}
    (hextension : (path.join name).hasExtension options.extension = true)
    (h : files.readSource options (path.join name) = .ok source) :
    name.bytes = Text.Utf8.encode source.name.text
      ++ fullStop :: Text.Utf8.encode options.extension := by
  obtain ⟨-, hstem, -⟩ := readSource_eq_ok_iff.1 h
  obtain ⟨stem, hcut, hbytes⟩ := bytes_of_hasExtension hextension
  rw [hcut, Option.some.injEq] at hstem
  rw [hbytes, hstem]

/-- No name that begins with a full stop leads to a source that is loaded, hidden or not. -/
theorem head?_ne_of_finds (h : files.loadEntry options (path.join name) = .ok found)
    (hfinds : files.Finds options (path.join name) names) :
    ∀ other ∈ name :: names, other.bytes.head? ≠ some fullStop := by
  induction names generalizing path name found with
  | nil =>
    obtain ⟨-, hfile, hextension⟩ := hfinds
    -- the file at the end is read, so its name begins as that of a unit
    have hread : ∃ source, files.readSource options (path.join name) = .ok source := by
      rw [Path.joinAll_nil] at hfile hextension
      rw [loadEntry_of_file hfile, if_pos hextension] at h
      obtain ⟨source, hsource, -⟩ := map_eq_ok_iff.1 h
      exact ⟨source, hsource⟩
    obtain ⟨source, hsource⟩ := hread
    intro other hother
    obtain rfl := List.mem_singleton.1 hother
    rw [bytes_of_readSource hextension hsource]
    exact source.name.head?_encode_ne _
  | cons next names ih =>
    obtain ⟨hreaches, hend⟩ := hfinds
    cases hreaches with
    | enter hdirectory hlisted hnext hnames =>
      intro other hother
      rcases List.mem_cons.1 hother with rfl | hother
      · -- a directory on the way is loaded to a module, whose name is one of a unit
        obtain ⟨unit, hbytes⟩ := exists_bytes_of_directory hdirectory h
        rw [hbytes, ← List.append_nil (Text.Utf8.encode unit.text)]
        exact unit.head?_encode_ne []
      · obtain ⟨inner, hinner⟩ := exists_loadEntry_of_mem hdirectory h hlisted hnext
        exact ih hinner ⟨hnames, hend⟩ other hother

/-! ## Trees without links -/

/-- A tree without links is seen at a path that has no null byte, and no directory of the tree has
two entries of one name. -/
structure Holds (files : FileSystem) (path : Path) (tree : FileNode) : Prop where
  showsBelow : files.ShowsBelow path tree
  distinct : tree.Distinct
  linkFree : tree.LinkFree
  null_not_mem : 0 ∉ path.bytes

variable {tree node : FileNode} {entries : Directory} {listed : List FileName}

/-- What is seen of a tree without links below a place. -/
theorem holds_of_lookup {place found : Place} {root : Path}
    (h : place.lookup root = .ok (.directory found)) (hdistinct : found.tree.Distinct)
    (hfree : found.tree.LinkFree) (hnull : 0 ∉ root.bytes) :
    place.fileSystem.Holds root found.tree :=
  ⟨Place.showsBelow h, hdistinct, hfree, hnull⟩

theorem Holds.of_at? (h : files.Holds path tree) (hnode : tree.at? names = some node) :
    files.Holds (path.joinAll names) node where
  showsBelow := h.showsBelow.of_at? hnode
  distinct := h.distinct.of_at? hnode
  linkFree := h.linkFree.of_at? hnode
  null_not_mem := fun hmem => h.null_not_mem ((path.null_mem_joinAll_iff names).1 hmem)

theorem Holds.fault?_eq_none_iff (h : files.Holds path tree) :
    path.fault? = none ↔ path.bytes.length < Path.lengthLimit := by
  rw [Path.fault?_eq_none_iff]
  exact and_iff_right h.null_not_mem

/-- A directory is seen where a tree is one, as far as its path is short of the limit. -/
theorem Holds.isDirectory_iff (h : files.Holds path tree) :
    files.isDirectory path = true
      ↔ (∃ entries, tree = .directory entries) ∧ path.bytes.length < Path.lengthLimit := by
  rw [← h.fault?_eq_none_iff]
  have hshows := h.showsBelow.shows
  cases tree with
  | file => simp [hshows.isDirectory_file]
  | link target => exact absurd (FileNode.at?_nil _) (h.linkFree [] target)
  | directory entries => simp [hshows.isDirectory_directory]

/-- The entries of a directory that are gone through, as far as its path is short of the limit. -/
theorem Holds.visibleEntries_eq (h : files.Holds path (.directory entries))
    (hlength : path.bytes.length < Path.lengthLimit) :
    files.visibleEntries path
      = .ok (((entries.map Prod.fst).mergeSort fun a b => (a.order b).isLE).filter
        fun name => !name.isHidden) := by
  rw [visibleEntries, h.showsBelow.shows.entries_directory (h.fault?_eq_none_iff.2 hlength)]

/-- These are the entries whose names are not hidden. -/
theorem Holds.mem_visibleEntries_iff (h : files.Holds path (.directory entries))
    (hlisted : files.visibleEntries path = .ok listed)
    (hlength : path.bytes.length < Path.lengthLimit) :
    name ∈ listed
      ↔ name.isHidden = false ∧ ∃ node, Directory.find? name.bytes entries = some node := by
  rw [h.visibleEntries_eq hlength, Except.ok.injEq] at hlisted
  simp only [Directory.find?_eq_some_iff h.distinct.nodup]
  rw [← hlisted, List.mem_filter, (List.mergeSort_perm _ _).mem_iff, List.mem_map,
    Bool.not_eq_true', and_comm]
  refine and_congr_right fun _ => ?_
  constructor
  · rintro ⟨⟨other, node⟩, hmem, rfl⟩
    exact ⟨node, hmem⟩
  · rintro ⟨node, hmem⟩
    exact ⟨(name, node), hmem, rfl⟩

/-- Loading comes by what the tree holds at names that are not hidden, as far as the path of the
directory at the end is short of the limit. -/
theorem Holds.reaches_iff (h : files.Holds path tree) :
    files.Reaches path names
      ↔ (∃ node, tree.at? names = some node) ∧ (∀ name ∈ names, name.isHidden = false)
        ∧ (names ≠ [] → (path.joinAll names.dropLast).bytes.length < Path.lengthLimit) := by
  induction names generalizing path tree with
  | nil =>
    refine iff_of_true (.here path) ⟨⟨tree, FileNode.at?_nil tree⟩, ?_, fun hne => absurd rfl hne⟩
    exact List.forall_mem_nil _
  | cons name names ih =>
    constructor
    · -- every directory on the way is listed, and so its path is short enough
      intro hreaches
      cases hreaches with
      | enter hdirectory hlisted hname hnames =>
        obtain ⟨⟨entries, rfl⟩, hlength⟩ := h.isDirectory_iff.1 hdirectory
        obtain ⟨hvisible, node, hfind⟩ := (h.mem_visibleEntries_iff hlisted hlength).1 hname
        have hnode := FileNode.at?_singleton_eq_some_iff.2 hfind
        obtain ⟨⟨inner, hinner⟩, hrest, hshort⟩ := (ih (h.of_at? hnode)).1 hnames
        refine ⟨⟨inner, ?_⟩, List.forall_mem_cons.2 ⟨hvisible, hrest⟩, fun _ => ?_⟩
        · rw [FileNode.at?_cons_of_find? hfind, hinner]
        · cases names with
          | nil => exact hlength
          | cons next names => exact hshort (List.cons_ne_nil _ _)
    · -- the path of the first directory is no longer than that of the last
      rintro ⟨⟨inner, hinner⟩, hvisible, hshort⟩
      obtain ⟨entries, node, rfl, hfind, hrest⟩ := FileNode.exists_of_at?_cons hinner
      have hlength : path.bytes.length < Path.lengthLimit :=
        Nat.lt_of_le_of_lt (path.length_le_joinAll _) (hshort (List.cons_ne_nil _ _))
      have hnode := FileNode.at?_singleton_eq_some_iff.2 hfind
      have hlisted := h.visibleEntries_eq hlength
      refine .enter (h.isDirectory_iff.2 ⟨⟨entries, rfl⟩, hlength⟩) hlisted ?_ ?_
      · exact (h.mem_visibleEntries_iff hlisted hlength).2
          ⟨hvisible name List.mem_cons_self, node, hfind⟩
      · refine (ih (h.of_at? hnode)).2 ⟨⟨inner, hrest⟩, ?_, fun hne => ?_⟩
        · exact fun other hother => hvisible other (List.mem_cons_of_mem _ hother)
        · have hdrop : (name :: names).dropLast = name :: names.dropLast :=
            List.dropLast_cons_of_ne_nil hne
          have hwhole := hshort (List.cons_ne_nil _ _)
          rw [hdrop] at hwhole
          exact hwhole

/-- No directory of a tree that is seen lists a name twice. -/
theorem Holds.listsOnce (h : files.Holds path tree) : files.ListsOnce path := by
  intro names listed hreaches hdirectory hlisted
  obtain ⟨⟨node, hnode⟩, -⟩ := h.reaches_iff.1 hreaches
  have hholds := h.of_at? hnode
  obtain ⟨⟨entries, rfl⟩, hlength⟩ := hholds.isDirectory_iff.1 hdirectory
  rw [hholds.visibleEntries_eq hlength, Except.ok.injEq] at hlisted
  rw [← hlisted]
  exact ((List.mergeSort_perm _ _).nodup_iff.2 hholds.distinct.nodup).filter _

end FileSystem

/-! ## A small tree -/

namespace LibraryTree

/-- The name of the directory that everything lies in. -/
def w : FileName := .ofText ['w'] (by decide)

/-- The path of that directory. -/
def root : Path := ⟨w.bytes⟩

def a : FileName := .ofText ['a', '.', 't', 'r'] (by decide)

def library : FileName := .ofText ['l', 'i', 'b', 'r', 'a', 'r', 'y'] (by decide)

def x : FileName := .ofText ['x', '.', 't', 'r'] (by decide)

/-- The source `a.tr` beside the directory `library`, which holds the source `x.tr`. -/
def entries : Directory := [(a, .file [0x62]), (library, .directory [(x, .file [0x63])])]

/-- These are what the directory `w` holds. -/
def place : Place := ⟨[(w, .directory entries)], []⟩

/-- The name of the source `x.tr`. -/
def xName : UnitName := ⟨['x'], by decide⟩

theorem isPlain : (FileNode.directory entries).isPlain = true := by decide

end LibraryTree

end Lexis
