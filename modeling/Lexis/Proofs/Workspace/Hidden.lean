import Mathlib
import Lexis.Proofs.Workspace.Tree

/-!
# Hidden entries

Loading passes over what is hidden and over files without the extension of sources. Its result, or
the error that it meets, depends only on what else a tree holds. So an entry with a name that begins
with a full stop has no part in it, whatever it is and wherever it lies, unless its name is not
UTF-8 and it is a directory or source: such an entry is not hidden, and its name is an error.

- `FileNode.Skipped`: loading passes over an entry.
- `FileNode.SameSeen`: two trees hold the same, but for entries that loading passes over.
- `FileNode.sameSeen_insert`: such an entry that is added or changed makes no difference to that.
- `addEntries_filter`: entries that hold nothing may be left out.
- `FileSystem.load_congr`: loading depends only on what is seen at the paths that concern it.
- `load_eq_of_sameSeen`: two trees that hold the same, but for entries that loading passes over, are
  loaded to the same.
- `FileSystem.loadEntry_of_not_utf8`, `FileSystem.isSome_decode?_of_load`: a directory or source
  with a name that is not UTF-8 ends the loading.
- `load_meets_name_not_utf8`: also when the name begins with a full stop.
-/

namespace Lexis

/-! ## Entries that hold nothing -/

section Entries

variable {σ : Type} {load other : FileName → Except LoadError (Option (Package SourceText))}
  {add : σ → Package SourceText → Except LoadError σ} {found : σ} {names : List FileName}

theorem addEntries_congr (h : ∀ name ∈ names, load name = other name) :
    addEntries load add found names = addEntries other add found names := by
  induction names generalizing found with
  | nil => rfl
  | cons name names ih =>
    obtain ⟨hname, hnames⟩ := List.forall_mem_cons.1 h
    rw [addEntries, addEntries, hname]
    split
    · rfl
    · exact ih hnames
    · split
      · rfl
      · exact ih hnames

/-- Entries that hold nothing may be left out. -/
theorem addEntries_filter {keep : FileName → Bool}
    (h : ∀ name ∈ names, keep name = false → load name = .ok none) :
    addEntries load add found (names.filter keep) = addEntries load add found names := by
  induction names generalizing found with
  | nil => rfl
  | cons name names ih =>
    obtain ⟨hname, hnames⟩ := List.forall_mem_cons.1 h
    cases hkeep : keep name with
    | false =>
      rw [List.filter_cons_of_neg (by rw [hkeep]; decide), addEntries, hname hkeep]
      exact ih hnames
    | true =>
      rw [List.filter_cons_of_pos hkeep, addEntries, addEntries]
      split
      · rfl
      · exact ih hnames
      · split
        · rfl
        · exact ih hnames

end Entries

/-! ## Two file systems -/

namespace FileSystem

variable {files others : FileSystem} {options : LoadOptions} {path root : Path}

/-- Whether a path concerns loading: it leads to a directory, or has the extension of sources. -/
def concerns (files : FileSystem) (options : LoadOptions) (path : Path) : Bool :=
  files.isDirectory path || path.hasExtension options.extension

theorem loadEntry_of_not_concerns (h : files.concerns options path = false) :
    files.loadEntry options path = .ok none := by
  rw [concerns, Bool.or_eq_false_iff] at h
  rw [loadEntry_of_file h.1, if_neg (by rw [h.2]; decide)]

/-- The entries of a directory that concern loading. -/
def concerning (files : FileSystem) (options : LoadOptions) (path : Path) :
    Except LoadError (List FileName) :=
  (files.visibleEntries path).map
    (List.filter fun name => files.concerns options (path.join name))

/-- Two file systems show the same at a path, as far as it concerns loading. -/
structure SameAt (files others : FileSystem) (options : LoadOptions) (path : Path) : Prop where
  isDirectory_eq : files.isDirectory path = others.isDirectory path
  readText_eq : files.isDirectory path = false → files.readText path = others.readText path
  concerning_eq : files.isDirectory path = true →
    files.concerning options path = others.concerning options path

/-- From a directory in which two file systems show the same, the same is put together, if what
concerns loading holds the same. -/
theorem SameAt.bind_addEntries {σ γ : Type} {add : σ → Package SourceText → Except LoadError σ}
    {found : σ} (h : files.SameAt others options path) (hpath : files.isDirectory path = true)
    (hentries : ∀ listed, files.visibleEntries path = .ok listed → ∀ name ∈ listed,
      files.concerns options (path.join name) = true →
      files.loadEntry options (path.join name) = others.loadEntry options (path.join name))
    (after : Except LoadError σ → Except LoadError γ) :
    ((files.visibleEntries path).bind fun names =>
        after (addEntries (fun name => files.loadEntry options (path.join name)) add found names))
      = (others.visibleEntries path).bind fun names =>
        after
          (addEntries (fun name => others.loadEntry options (path.join name)) add found names) := by
  have hsame := h.concerning_eq hpath
  rw [concerning, concerning] at hsame
  -- either neither directory can be listed, or both can
  cases hlisted : files.visibleEntries path with
  | error error =>
    cases hother : others.visibleEntries path with
    | error other =>
      rw [hlisted, hother] at hsame
      cases hsame
      rfl
    | ok other =>
      rw [hlisted, hother] at hsame
      cases hsame
  | ok listed =>
    cases hother : others.visibleEntries path with
    | error other =>
      rw [hlisted, hother] at hsame
      cases hsame
    | ok other =>
      rw [hlisted, hother] at hsame
      have hfilter := Except.ok.inj hsame
      -- of the entries that concern loading both list the same
      have hkept : ∀ name ∈ listed.filter fun name => files.concerns options (path.join name),
          files.loadEntry options (path.join name) = others.loadEntry options (path.join name) := by
        intro name hname
        obtain ⟨hmem, hconcerns⟩ := List.mem_filter.1 hname
        exact hentries listed hlisted name hmem hconcerns
      simp only [Except.bind]
      -- What does not concern loading is left out on one side, and put back on the other.
      rw [← addEntries_filter fun name _ hname => loadEntry_of_not_concerns hname,
        addEntries_congr hkept, hfilter,
        addEntries_filter fun name _ hname => loadEntry_of_not_concerns hname]

/-- What an entry holds depends only on what is seen at the paths that concern loading. -/
theorem loadEntry_congr (path : Path) (hconcerns : files.concerns options path = true)
    (h : ∀ names, files.Reaches path names →
      files.concerns options (path.joinAll names) = true →
      files.SameAt others options (path.joinAll names)) :
    files.loadEntry options path = others.loadEntry options path := by
  induction path using loading files with
  | step path ih =>
    have hsame : files.SameAt others options path := h [] (.here path) hconcerns
    cases hpath : files.isDirectory path with
    -- a file is read alike
    | false =>
      have hother : others.isDirectory path = false := hsame.isDirectory_eq.symm.trans hpath
      rw [loadEntry_of_file hpath, loadEntry_of_file hother, readSource, readSource, readContents,
        readContents, hsame.readText_eq hpath]
    -- a directory is loaded alike, since by induction all its entries are
    | true =>
      have hother : others.isDirectory path = true := hsame.isDirectory_eq.symm.trans hpath
      rw [loadEntry_of_isDirectory hpath, loadEntry_of_isDirectory hother, loadModule_eq,
        loadModule_eq]
      cases path.unitName path.fileName? with
      | error => rfl
      | ok name =>
        refine congrArg (Except.map _) (hsame.bind_addEntries hpath ?_ _)
        intro listed hlisted entry hentry hinner
        refine ih hpath entry hinner fun names hnames => ?_
        exact h (entry :: names) (.enter hpath hlisted hentry hnames)

/-- Loading depends only on what is seen at the paths that concern it. -/
theorem load_congr (hroot : files.isDirectory root = others.isDirectory root)
    (h : ∀ names, files.Reaches root names →
      files.concerns options (root.joinAll names) = true →
      files.SameAt others options (root.joinAll names)) :
    files.load options root = others.load options root := by
  cases hdirectory : files.isDirectory root with
  | false => rw [load, load, ← hroot, hdirectory]; rfl
  | true =>
    have hconcerns : files.concerns options root = true := by
      rw [concerns, hdirectory, Bool.true_or]
    have hsame : files.SameAt others options root := h [] (.here root) hconcerns
    rw [load_of_isDirectory hdirectory, load_of_isDirectory (hroot ▸ hdirectory)]
    refine hsame.bind_addEntries hdirectory ?_ id
    intro listed hlisted entry hentry hinner
    refine loadEntry_congr _ hinner fun names hnames => ?_
    exact h (entry :: names) (.enter hdirectory hlisted hentry hnames)

end FileSystem

/-! ## Trees that differ in entries that are passed over -/

/-- Whether a name has the extension of sources. -/
def FileName.hasExtension (name : FileName) (extension : List Char) : Bool :=
  (Path.cutExtension name.bytes).2.bind Text.Utf8.decode? == some extension

theorem Path.hasExtension_joinAll_concat (path : Path) (names : List FileName) (name : FileName)
    (extension : List Char) :
    (path.joinAll (names ++ [name])).hasExtension extension = name.hasExtension extension := by
  rw [joinAll_append, joinAll_cons, joinAll_nil, Path.hasExtension, extension?_join]
  rfl

namespace FileNode

/-- A node without what lies in it. -/
def surface : FileNode → FileNode
  | .directory _ => .directory []
  | node => node

theorem eq_or_directory_of_surface_eq {node other : FileNode} (h : node.surface = other.surface) :
    node = other ∨ ∃ entries others, node = .directory entries ∧ other = .directory others := by
  cases node with
  | directory entries =>
    cases other with
    | directory others => exact .inr ⟨entries, others, rfl, rfl⟩
    | _ => cases h
  | file contents =>
    cases other with
    | file => exact .inl h
    | _ => cases h
  | link target =>
    cases other with
    | link => exact .inl h
    | _ => cases h

/-- Loading passes over an entry: its name is hidden, or it is a file without the extension of
sources. -/
def Skipped (options : LoadOptions) (name : FileName) (node : FileNode) : Prop :=
  name.isHidden = true
    ∨ (∃ contents, node = .file contents) ∧ name.hasExtension options.extension = false

/-- Whatever a tree holds at names that are not hidden, files without the extension of sources
apart, another tree holds there too: the same file or link, or a directory. -/
def SeenIn (options : LoadOptions) (path : Path) (tree other : FileNode) : Prop :=
  ∀ names node, (∀ name ∈ names, name.isHidden = false) → tree.at? names = some node →
    (∀ contents, node = .file contents →
      (path.joinAll names).hasExtension options.extension = true) →
    ∃ found, other.at? names = some found ∧ found.surface = node.surface

/-- Two trees hold the same, but for entries that loading passes over. -/
def SameSeen (options : LoadOptions) (path : Path) (tree other : FileNode) : Prop :=
  tree.SeenIn options path other ∧ other.SeenIn options path tree

end FileNode

theorem Directory.insert_cons {entries inner : Directory} {node : FileNode} {name : FileName}
    {more : List FileName} (hmore : more ≠ [])
    (hfind : find? name.bytes entries = some (.directory inner)) :
    insert node (name :: more) entries
      = put name (.directory (insert node more inner)) entries := by
  cases more with
  | nil => exact absurd rfl hmore
  | cons next more => rw [insert, hfind]

theorem Directory.find?_put {entries : Directory} {name : FileName} {node : FileNode}
    (bytes : List UInt8) :
    find? bytes (put name node entries)
      = if name.bytes = bytes then some node else find? bytes entries := by
  induction entries with
  | nil => rfl
  | cons entry entries ih =>
    obtain ⟨other, old⟩ := entry
    rw [put]
    by_cases hname : other = name
    · rw [if_pos hname, hname, find?, find?]
      split <;> rfl
    · rw [if_neg hname, find?, find?, ih]
      have hbytes : other.bytes ≠ name.bytes := fun h => hname (FileName.ext h)
      by_cases hother : other.bytes = bytes
      · rw [if_pos hother, if_pos hother, if_neg fun h => hbytes (hother.trans h.symm)]
      · rw [if_neg hother, if_neg hother]

namespace FileNode

variable {options : LoadOptions} {path : Path} {tree other node found : FileNode}
  {entries inner : Directory} {name : FileName} {names others : List FileName}

theorem SeenIn.of_at? (h : tree.SeenIn options path other)
    (hvisible : ∀ name ∈ names, name.isHidden = false) (hnode : tree.at? names = some node)
    (hfound : other.at? names = some found) : node.SeenIn options (path.joinAll names) found := by
  intro more last hmore hlast hextension
  have hall : ∀ name ∈ names ++ more, name.isHidden = false := fun name hname =>
    (List.mem_append.1 hname).elim (hvisible name) (hmore name)
  rw [← Path.joinAll_append] at hextension
  have hwhole : tree.at? (names ++ more) = some last := by
    rw [at?_append, hnode]
    exact hlast
  obtain ⟨seen, hseen, hsurface⟩ := h (names ++ more) last hall hwhole hextension
  rw [at?_append, hfound] at hseen
  exact ⟨seen, hseen, hsurface⟩

/-! ### One entry more -/

theorem exists_directory_of_at? (h : node.at? names = some (.directory inner)) :
    ∃ entries, node = .directory entries := by
  cases node with
  | directory entries => exact ⟨entries, rfl⟩
  | file => cases names <;> cases h
  | link => cases names <;> cases h

/-- Where a node was put, and below, is what the node holds. -/
theorem at?_insert (more : List FileName)
    (hnames : (directory entries).at? names = some (.directory inner)) :
    (directory (Directory.insert node (names ++ [name]) entries)).at? (names ++ name :: more)
      = node.at? more := by
  induction names generalizing entries with
  | nil =>
    rw [List.nil_append, List.nil_append, Directory.insert, at?, Directory.find?_put, if_pos rfl]
  | cons next names ih =>
    obtain ⟨_, found, heq, hfind, hrest⟩ := exists_of_at?_cons hnames
    cases heq
    obtain ⟨below, rfl⟩ := exists_directory_of_at? hrest
    rw [List.cons_append, List.cons_append, Directory.insert_cons (by simp) hfind, at?,
      Directory.find?_put, if_pos rfl]
    exact ih hrest

/-- At all other names is what was there, or still a directory. -/
theorem surface_at?_insert (node : FileNode)
    (hnames : (directory entries).at? names = some (.directory inner))
    (hothers : ¬ names ++ [name] <+: others) :
    ((directory (Directory.insert node (names ++ [name]) entries)).at? others).map surface
      = ((directory entries).at? others).map surface := by
  induction names generalizing entries others with
  | nil =>
    cases others with
    | nil => rfl
    | cons first others =>
      -- in the directory itself only the new name leads elsewhere
      have hne : name.bytes ≠ first.bytes := by
        intro hbytes
        obtain rfl := FileName.ext hbytes
        exact hothers ⟨others, rfl⟩
      rw [List.nil_append, Directory.insert, at?, at?, Directory.find?_put, if_neg hne]
  | cons next names ih =>
    obtain ⟨_, found, heq, hfind, hrest⟩ := exists_of_at?_cons hnames
    cases heq
    obtain ⟨below, rfl⟩ := exists_directory_of_at? hrest
    rw [List.cons_append, Directory.insert_cons (by simp) hfind]
    cases others with
    | nil => rfl
    | cons first others =>
      -- further down there is a change only along the way to it
      rw [at?, at?, Directory.find?_put]
      by_cases hbytes : next.bytes = first.bytes
      · obtain rfl := FileName.ext hbytes
        rw [if_pos rfl, hfind]
        refine ih hrest fun hprefix => hothers ?_
        exact List.cons_prefix_cons.2 ⟨rfl, hprefix⟩
      · rw [if_neg hbytes]

/-- In an entry that is passed over lies nothing that loading looks at. -/
theorem Skipped.not_seen (h : node.Skipped options name) {more : List FileName}
    (hvisible : ∀ other ∈ names ++ name :: more, other.isHidden = false)
    (hfound : node.at? more = some found)
    (hextension : ∀ contents, found = .file contents →
      (path.joinAll (names ++ name :: more)).hasExtension options.extension = true) : False := by
  rcases h with hhidden | ⟨⟨contents, rfl⟩, hname⟩
  · rw [hvisible name (by simp)] at hhidden
    cases hhidden
  · cases more with
    | nil =>
      obtain rfl : FileNode.file contents = found := by simpa using hfound
      have hsource := hextension contents rfl
      rw [Path.hasExtension_joinAll_concat, hname] at hsource
      cases hsource
    | cons next more => cases hfound

/-- An entry that loading passes over may be added to any directory of a tree, or put in place of
another such entry, and the tree holds the same, but for entries that are passed over. -/
theorem sameSeen_insert (hnames : (directory entries).at? names = some (.directory inner))
    (hnew : node.Skipped options name)
    (hold : ∀ old, Directory.find? name.bytes inner = some old → old.Skipped options name) :
    SameSeen options path (directory (Directory.insert node (names ++ [name]) entries))
      (directory entries) := by
  constructor
  · intro others found hvisible hfound hextension
    -- what lies inside the new entry is not seen
    by_cases hprefix : names ++ [name] <+: others
    · obtain ⟨more, rfl⟩ := hprefix
      rw [List.append_assoc, List.singleton_append] at hvisible hfound hextension
      rw [at?_insert more hnames] at hfound
      exact (hnew.not_seen hvisible hfound hextension).elim
    · have hsurface := surface_at?_insert node hnames hprefix
      rw [hfound, Option.map_some] at hsurface
      exact Option.map_eq_some_iff.1 hsurface.symm
  · intro others found hvisible hfound hextension
    -- nor was what lay inside the old one
    by_cases hprefix : names ++ [name] <+: others
    · obtain ⟨more, rfl⟩ := hprefix
      rw [List.append_assoc, List.singleton_append] at hvisible hfound hextension
      rw [at?_append, hnames, Option.bind_some] at hfound
      obtain ⟨_, old, heq, hfind, hmore⟩ := exists_of_at?_cons hfound
      cases heq
      exact ((hold old hfind).not_seen hvisible hmore hextension).elim
    · have hsurface := surface_at?_insert node hnames hprefix
      rw [hfound, Option.map_some] at hsurface
      exact Option.map_eq_some_iff.1 hsurface

end FileNode

/-! ## Two trees -/

/-- Lists that ascend and hold the same names are the same. -/
theorem FileName.eq_of_ascending {a b : List FileName} (ha : a.Pairwise fun x y => x.order y = .lt)
    (hb : b.Pairwise fun x y => x.order y = .lt) (h : ∀ name, name ∈ a ↔ name ∈ b) : a = b := by
  have hne : ∀ {x y : FileName}, x.order y = .lt → x ≠ y := by
    rintro x _ hlt rfl
    rw [x.order_self] at hlt
    cases hlt
  have hperm : a.Perm b := (List.perm_ext_iff_of_nodup (ha.imp hne) (hb.imp hne)).2 h
  refine hperm.eq_of_pairwise (fun x y _ _ hxy hyx => ?_) ha hb
  exact absurd hyx (Std.OrientedCmp.not_lt_of_lt hxy)

namespace FileSystem

variable {files others : FileSystem} {options : LoadOptions} {path root : Path}
  {tree other : FileNode} {entries otherEntries : Directory} {listed otherListed : List FileName}
  {name : FileName}

/-- A tree's file that concerns loading has the extension of sources. -/
theorem Holds.hasExtension_of_concerns (h : files.Holds path tree)
    (hconcerns : files.concerns options path = true) (contents : List UInt8)
    (htree : tree = .file contents) : path.hasExtension options.extension = true := by
  subst htree
  rw [concerns, h.showsBelow.shows.isDirectory_file, Bool.false_or] at hconcerns
  exact hconcerns

theorem Holds.isDirectory_eq (h : files.Holds path tree) (hother : others.Holds path other)
    (hsurface : tree.surface = other.surface) :
    files.isDirectory path = others.isDirectory path := by
  rw [Bool.eq_iff_iff, h.isDirectory_iff, hother.isDirectory_iff]
  rcases FileNode.eq_or_directory_of_surface_eq hsurface with
    rfl | ⟨entries, otherEntries, rfl, rfl⟩
  · rfl
  · simp

/-- What concerns loading among the entries of a directory is listed wherever it is seen. -/
theorem Holds.mem_of_seenIn (h : files.Holds path (.directory entries))
    (hother : others.Holds path (.directory otherEntries))
    (hseen : (FileNode.directory entries).SeenIn options path (.directory otherEntries))
    (hlength : path.bytes.length < Path.lengthLimit)
    (hlisted : files.visibleEntries path = .ok listed)
    (hotherListed : others.visibleEntries path = .ok otherListed) (hname : name ∈ listed)
    (hconcerns : files.concerns options (path.join name) = true) :
    name ∈ otherListed ∧ others.concerns options (path.join name) = true := by
  obtain ⟨hvisible, node, hfind⟩ := (h.mem_visibleEntries_iff hlisted hlength).1 hname
  have hnode := FileNode.at?_singleton_eq_some_iff.2 hfind
  have hall : ∀ other ∈ [name], other.isHidden = false := by simpa using hvisible
  have hinner : files.Holds (path.join name) node := h.of_at? hnode
  obtain ⟨found, hfound, hsurface⟩ :=
    hseen [name] node hall hnode (hinner.hasExtension_of_concerns hconcerns)
  have hotherInner : others.Holds (path.join name) found := hother.of_at? hfound
  refine ⟨(hother.mem_visibleEntries_iff hotherListed hlength).2
    ⟨hvisible, found, FileNode.at?_singleton_eq_some_iff.1 hfound⟩, ?_⟩
  rw [concerns, hotherInner.isDirectory_eq hinner hsurface]
  exact hconcerns

/-- Trees that hold the same, but for entries that loading passes over, are seen alike from
outside. -/
theorem Holds.sameAt (h : files.Holds path tree) (hother : others.Holds path other)
    (hsame : tree.SameSeen options path other) (hsurface : tree.surface = other.surface) :
    files.SameAt others options path := by
  have hkind := FileNode.eq_or_directory_of_surface_eq hsurface
  have hdirectory := h.isDirectory_eq hother hsurface
  refine ⟨hdirectory, fun hfile => ?_, fun hpath => ?_⟩
  · cases hfault : path.fault? with
    | some fault => rw [readText, readText, hfault]
    | none =>
      -- a path without a fault that is no directory is that of a file
      cases tree with
      | link target => exact absurd (FileNode.at?_nil _) (h.linkFree [] target)
      | directory entries =>
        rw [h.isDirectory_iff.2 ⟨⟨entries, rfl⟩, h.fault?_eq_none_iff.1 hfault⟩] at hfile
        cases hfile
      | file contents =>
        obtain rfl := hkind.resolve_right (by simp)
        rw [h.showsBelow.shows.readText_file hfault, hother.showsBelow.shows.readText_file hfault]
  · obtain ⟨⟨entries, rfl⟩, hlength⟩ := h.isDirectory_iff.1 hpath
    have hotherPath : others.isDirectory path = true := hdirectory ▸ hpath
    obtain ⟨⟨otherEntries, rfl⟩, -⟩ := hother.isDirectory_iff.1 hotherPath
    have hlisted := h.visibleEntries_eq hlength
    have hotherListed := hother.visibleEntries_eq hlength
    rw [concerning, concerning, hlisted, hotherListed]
    -- lists in ascending order are the same if they have the same names
    refine congrArg Except.ok (FileName.eq_of_ascending
      ((h.listsOnce.ascending hpath hlisted).filter _)
      ((hother.listsOnce.ascending hotherPath hotherListed).filter _) fun name => ?_)
    constructor
    · intro hname
      obtain ⟨hmem, hconcerns⟩ := List.mem_filter.1 hname
      exact List.mem_filter.2
        (h.mem_of_seenIn hother hsame.1 hlength hlisted hotherListed hmem hconcerns)
    · intro hname
      obtain ⟨hmem, hconcerns⟩ := List.mem_filter.1 hname
      exact List.mem_filter.2
        (hother.mem_of_seenIn h hsame.2 hlength hotherListed hlisted hmem hconcerns)

/-- And so are they at all paths that concern loading. -/
theorem Holds.sameAt_joinAll (h : files.Holds path tree) (hother : others.Holds path other)
    (hsame : tree.SameSeen options path other) {names : List FileName}
    (hnames : files.Reaches path names)
    (hconcerns : files.concerns options (path.joinAll names) = true) :
    files.SameAt others options (path.joinAll names) := by
  obtain ⟨⟨node, hnode⟩, hvisible, -⟩ := h.reaches_iff.1 hnames
  have hholds := h.of_at? hnode
  obtain ⟨found, hfound, hsurface⟩ :=
    hsame.1 names node hvisible hnode (hholds.hasExtension_of_concerns hconcerns)
  exact hholds.sameAt (hother.of_at? hfound)
    ⟨hsame.1.of_at? hvisible hnode hfound, hsame.2.of_at? hvisible hfound hnode⟩ hsurface.symm

end FileSystem

/-! ## Names that are not UTF-8 -/

namespace FileSystem

variable {files : FileSystem} {options : LoadOptions} {path root : Path} {name : FileName}
  {names : List FileName}

/-- A directory or source whose name is not UTF-8 ends the loading, whether or not the name begins
with a full stop. -/
theorem loadEntry_of_not_utf8 (hname : Text.Utf8.decode? name.bytes = none)
    (hconcerns : files.concerns options (path.join name) = true) :
    files.loadEntry options (path.join name) = .error (.nonUtf8Name (path.join name)) := by
  have hunit : ∀ bytes : Option (List UInt8), bytes.bind Text.Utf8.decode? = none →
      (path.join name).unitName bytes = .error (.nonUtf8Name (path.join name)) := by
    intro bytes hbytes
    rw [Path.unitName, hbytes]
  cases hdirectory : files.isDirectory (path.join name) with
  | true =>
    -- a directory has its whole name as its stem
    rw [loadEntry_of_isDirectory hdirectory, loadModule_eq, Path.fileName?_join,
      hunit (some name.bytes) hname]
    rfl
  | false =>
    rw [concerns, hdirectory, Bool.false_or] at hconcerns
    have hextension : (path.join name).hasExtension options.extension = true := hconcerns
    obtain ⟨stem, hstem, hbytes⟩ := bytes_of_hasExtension hextension
    -- Were the stem UTF-8, so would be the name.
    have hdecode : ((path.join name).stem?).bind Text.Utf8.decode? = none := by
      rw [hstem, Option.bind_some]
      cases htext : Text.Utf8.decode? stem with
      | none => rfl
      | some text =>
        have hwhole : name.bytes = Text.Utf8.encode (text ++ '.' :: options.extension) := by
          rw [hbytes, ← Text.Utf8.decode?_eq_some_iff.1 htext, Text.Utf8.encode, Text.Utf8.encode,
            Text.Utf8.encode, List.flatMap_append, List.flatMap_cons]
          rfl
        rw [hwhole, Text.Utf8.decode?_encode] at hname
        cases hname
    rw [loadEntry_of_file hdirectory, if_pos hextension, readSource, hunit _ hdecode]
    rfl

/-- So in what was loaded all directories and sources have names that are UTF-8. -/
theorem isSome_decode?_of_load {workspace : Workspace SourceText}
    (hload : files.load options root = .ok workspace)
    (hreaches : files.Reaches root (names ++ [name]))
    (hconcerns : files.concerns options (root.joinAll (names ++ [name])) = true) :
    (Text.Utf8.decode? name.bytes).isSome := by
  obtain ⟨found, hfound⟩ := exists_loadEntry_of_load hload (by simp) hreaches
  rw [Path.joinAll_append] at hfound hconcerns
  by_contra hname
  rw [Bool.not_eq_true, Option.isSome_eq_false_iff, Option.isNone_iff_eq_none] at hname
  have herror := loadEntry_of_not_utf8 hname hconcerns
  rw [Path.joinAll_cons, Path.joinAll_nil, herror] at hfound
  cases hfound

end FileSystem

/-! ## A tree with a hidden directory -/

namespace LibraryTree

/-- The name `.git`. -/
def git : FileName := .ofText ['.', 'g', 'i', 't'] (by decide)

/-- What `library` holds when there is a directory `.git` in it. -/
def libraryWithGit : Directory := [(x, .file [0x63]), (git, .directory [(x, .file [])])]

/-- The small tree, with a directory `.git` in `library`. -/
def entriesWithGit : Directory := [(a, .file [0x62]), (library, .directory libraryWithGit)]

def placeWithGit : Place := ⟨[(w, .directory entriesWithGit)], []⟩

theorem isPlainWithGit : (FileNode.directory entriesWithGit).isPlain = true := by decide

theorem sameSeenWithGit :
    (FileNode.directory entriesWithGit).SameSeen .standard root (.directory entries) := by
  have hlibrary : (FileNode.directory entries).at? [library]
      = some (.directory [(x, .file [0x63])]) := rfl
  have hhidden : git.isHidden = true := by cbv
  exact FileNode.sameSeen_insert hlibrary (.inl hhidden) fun old hold => by cases hold

end LibraryTree

/-- What lies beside a source `a.tr` in a directory `w`, seen from outside. -/
def besideSource (more : Directory) : FileSystem :=
  Place.fileSystem ⟨[(LibraryTree.w, .directory ((LibraryTree.a, .file []) :: more))], []⟩

/-! ## Hidden entries -/

/-- **Hidden entries cannot influence loading.** Two trees without links that hold the same, but for
entries that loading passes over, are loaded to the same workspace, or meet the same error: whatever
hidden entries, and files without the extension of sources, one of them has in any of its
directories, and the other has not, or has otherwise. -/
theorem load_eq_of_sameSeen (place place' found found' : Place) (root : Path)
    (options : LoadOptions) (hroot : place.lookup root = .ok (.directory found))
    (hroot' : place'.lookup root = .ok (.directory found'))
    (hdistinct : found.tree.Distinct) (hdistinct' : found'.tree.Distinct)
    (hfree : found.tree.LinkFree) (hfree' : found'.tree.LinkFree)
    (hsame : found.tree.SameSeen options root found'.tree) :
    place.fileSystem.load options root = place'.fileSystem.load options root := by
  by_cases hnull : 0 ∈ root.bytes
  · -- A root with a null byte is a directory nowhere.
    have hfault : root.fault? = some .nullInPath := by
      rw [Path.fault?, if_pos (by simpa using hnull)]
    rw [FileSystem.load, FileSystem.load, FileSystem.isDirectory, FileSystem.isDirectory, hfault]
    rfl
  · have hholds := FileSystem.holds_of_lookup hroot hdistinct hfree hnull
    have hholds' := FileSystem.holds_of_lookup hroot' hdistinct' hfree' hnull
    exact FileSystem.load_congr (hholds.isDirectory_eq hholds' rfl) fun names hnames hconcerns =>
      hholds.sameAt_joinAll hholds' hsame hnames hconcerns

open LibraryTree in
/-- A directory `.git` in `library` makes no difference. -/
theorem load_eq_with_git :
    placeWithGit.fileSystem.load .standard root = place.fileSystem.load .standard root :=
  load_eq_of_sameSeen placeWithGit place (placeWithGit.enter entriesWithGit)
    (place.enter entries) root .standard rfl rfl (FileNode.distinct_of_isPlain isPlainWithGit)
    (FileNode.distinct_of_isPlain isPlain) (FileNode.linkFree_of_isPlain isPlainWithGit)
    (FileNode.linkFree_of_isPlain isPlain) sameSeenWithGit

open LibraryTree in
/-- A file whose name is a full stop, a byte that is not UTF-8, and `.tr`, ends the loading. -/
theorem load_meets_name_not_utf8 :
    (∃ workspace, (besideSource []).load .standard root = .ok workspace)
      ∧ ∃ name : FileName, name.bytes.head? = some fullStop
        ∧ (besideSource [(name, .file [])]).load .standard root
          = .error (.nonUtf8Name (root.join name)) := by
  have hsource : (besideSource []).load .standard root
      = .ok ⟨root, [(⟨['a'], by decide⟩, .file ⟨root.join a, ⟨['a'], by decide⟩, ⟨[]⟩⟩)]⟩ := by
    cbv
  refine ⟨⟨_, hsource⟩, ⟨[0x2e, 0xff, 0x2e, 0x74, 0x72], by decide⟩, rfl, ?_⟩
  cbv

end Lexis
