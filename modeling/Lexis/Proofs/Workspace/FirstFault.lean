import Mathlib
import Lexis.Proofs.File.Pruned
import Lexis.Proofs.Workspace.Duplicates
import Lexis.Proofs.Workspace.Hidden

/-!
# The first fault of a tree

Entries are gone through in the order of their paths, whatever order they are listed in, and the
first fault ends the loading. So a fault is one of what comes before it and of nothing that comes
after: it stays when everything after it is deleted, and with it gone too nothing is at fault.

- `FileSystem.Relists`, `FileSystem.Relists.load_eq`: the same files, listed in another order, are
  loaded to the same.
- `exists_of_addEntries_eq_error`: the first entry that cannot be loaded, or not be added.
- `FileSystem.loadEntry_eq_error_iff`: a directory is at fault by its name, or by the first of its
  entries that is.
- `FileSystem.Holds.cut`: a directory of which the entries from some name on are deleted.
- `FileSystem.Holds.exists_fault`, `FileSystem.Holds.exists_load_fault`: the fault below an entry
  and below a root, and what comes of deleting.
- `load_reports_first_fault`: both together.
-/

namespace Lexis

/-! ## Other orders of listing -/

namespace FileSystem

variable {files others : FileSystem} {options : LoadOptions} {path root : Path}

/-- The same files, seen through directories that are listed in other orders. -/
structure Relists (files others : FileSystem) : Prop where
  leadsToDirectory_eq : ∀ path, files.leadsToDirectory path = others.leadsToDirectory path
  read_eq : ∀ path, files.read path = others.read path
  list_error : ∀ path fault, others.list path = .error fault → files.list path = .error fault
  list_perm : ∀ path names, others.list path = .ok names →
    ∃ listed, files.list path = .ok listed ∧ listed.Perm names

/-- Names are sorted to the same, whatever order they come in. -/
theorem mergeSort_eq_of_perm {a b : List FileName} (h : a.Perm b) :
    (a.mergeSort fun x y => (x.order y).isLE) = b.mergeSort fun x y => (x.order y).isLE := by
  have hperm := ((List.mergeSort_perm a fun x y => (x.order y).isLE).trans h).trans
    (List.mergeSort_perm b fun x y => (x.order y).isLE).symm
  refine hperm.eq_of_pairwise (fun x y _ _ hxy hyx => ?_) (pairwise_mergeSort a)
    (pairwise_mergeSort b)
  exact Std.LawfulEqCmp.eq_of_compare (Std.OrientedCmp.isLE_antisymm hxy hyx)

theorem Relists.isDirectory_eq (h : files.Relists others) (path : Path) :
    files.isDirectory path = others.isDirectory path := by
  rw [isDirectory, isDirectory, h.leadsToDirectory_eq]

theorem Relists.visibleEntries_eq (h : files.Relists others) (path : Path) :
    files.visibleEntries path = others.visibleEntries path := by
  rw [visibleEntries, visibleEntries, entries, entries]
  cases path.fault? with
  | some fault => rfl
  | none =>
    cases hlist : others.list path with
    | error fault => rw [h.list_error path fault hlist]
    | ok names =>
      obtain ⟨listed, hlisted, hperm⟩ := h.list_perm path names hlist
      rw [hlisted]
      show Except.ok ((listed.mergeSort _).filter _) = Except.ok ((names.mergeSort _).filter _)
      rw [mergeSort_eq_of_perm hperm]

theorem Relists.sameAt (h : files.Relists others) (path : Path) :
    files.SameAt others options path where
  isDirectory_eq := h.isDirectory_eq path
  readText_eq _ := by rw [readText, readText, h.read_eq]
  concerning_eq _ := by
    simp only [concerning, concerns, h.visibleEntries_eq, h.isDirectory_eq]

/-- **Loading does not depend on the order of listing.** -/
theorem Relists.load_eq (h : files.Relists others) :
    files.load options root = others.load options root :=
  load_congr (h.isDirectory_eq root) fun _ _ _ => h.sameAt _

/-- The file system that lists every directory backwards. -/
def backwards (files : FileSystem) : FileSystem :=
  { files with list := fun path => (files.list path).map List.reverse }

theorem relists_backwards (files : FileSystem) : files.backwards.Relists files where
  leadsToDirectory_eq _ := rfl
  read_eq _ := rfl
  list_error path fault h := by
    show (files.list path).map List.reverse = _
    rw [h]
    rfl
  list_perm path names h := by
    refine ⟨names.reverse, ?_, names.reverse_perm⟩
    show (files.list path).map List.reverse = _
    rw [h]
    rfl

end FileSystem

/-! ## The first fault of a directory -/

section Entries

variable {σ : Type} {load : FileName → Except LoadError (Option (Package SourceText))}
  {add : σ → Package SourceText → Except LoadError σ} {found : σ} {error : LoadError}
  {names front back : List FileName} {name : FileName}

/-- Ascending names up to one of them. -/
theorem pairwise_concat {R : FileName → FileName → Prop} (h : (front ++ name :: back).Pairwise R) :
    (front ++ [name]).Pairwise R :=
  h.sublist ((List.singleton_sublist.2 List.mem_cons_self).append_left front)

/-- Further entries are added to what was made of the first ones. -/
theorem addEntries_append {made : σ} (h : addEntries load add found names = .ok made)
    (more : List FileName) :
    addEntries load add found (names ++ more) = addEntries load add made more := by
  induction names generalizing found with
  | nil => cases h; rfl
  | cons name names ih =>
    rw [addEntries] at h
    rw [List.cons_append, addEntries]
    split at h
    · cases h
    · exact ih h
    · split at h
      · cases h
      · exact ih h

theorem addEntries_cons_of_error (h : load name = .error error)
    (names : List FileName) : addEntries load add found (name :: names) = .error error := by
  rw [addEntries, h]

theorem addEntries_singleton {package : Package SourceText}
    (h : load name = .ok (some package)) :
    addEntries load add found [name] = add found package := by
  rw [addEntries, h]
  dsimp only
  cases add found package <;> rfl

/-- Where entries cannot be put together there is a first that fails to load or to be added. -/
theorem exists_of_addEntries_eq_error (h : addEntries load add found names = .error error) :
    ∃ front name back made, names = front ++ name :: back
      ∧ addEntries load add found front = .ok made
      ∧ (load name = .error error
        ∨ ∃ package, load name = .ok (some package) ∧ add made package = .error error) := by
  induction names generalizing found with
  | nil => cases h
  | cons name names ih =>
    rw [addEntries] at h
    split at h
    -- the first entry fails to load
    next hload =>
      cases h
      exact ⟨[], name, names, found, rfl, rfl, .inl hload⟩
    -- the first entry holds nothing, and the fault comes later
    next hload =>
      obtain ⟨front, last, back, made, rfl, hmade, hfault⟩ := ih h
      refine ⟨name :: front, last, back, made, rfl, ?_, hfault⟩
      rw [addEntries, hload]
      exact hmade
    next package hload =>
      split at h
      -- the first entry fails to be added
      next hadd =>
        cases h
        exact ⟨[], name, names, found, rfl, rfl, .inr ⟨package, hload, hadd⟩⟩
      -- the first entry is added, and the fault comes later
      next next hadd =>
        obtain ⟨front, last, back, made, rfl, hmade, hfault⟩ := ih h
        refine ⟨name :: front, last, back, made, rfl, ?_, hfault⟩
        rw [addEntries, hload]
        dsimp only
        rw [hadd]
        exact hmade

end Entries

theorem Path.path_of_unitName_eq_error {path : Path} {bytes : Option (List UInt8)}
    {error : LoadError} (h : path.unitName bytes = .error error) : error.path = path := by
  rw [unitName] at h
  split at h
  · cases h
    rfl
  · split at h
    · cases h
    · cases h
      rfl

namespace FileSystem

variable {files others : FileSystem} {options : LoadOptions} {path root : Path}
  {listed front back : List FileName} {name : FileName} {error : LoadError}

/-- A source that cannot be read is what the error is about. -/
theorem path_of_readSource_eq_error (h : files.readSource options path = .error error) :
    error.path = path := by
  rw [readSource] at h
  split at h
  next hname =>
    cases h
    exact Path.path_of_unitName_eq_error hname
  · rw [map_eq_error_iff, readContents] at h
    split at h
    · cases h
      rfl
    · cases h

/-- So is a file that is no directory. -/
theorem path_of_loadEntry_eq_error (hpath : files.isDirectory path = false)
    (h : files.loadEntry options path = .error error) : error.path = path := by
  rw [loadEntry_of_file hpath] at h
  split at h
  · exact path_of_readSource_eq_error (map_eq_error_iff.1 h)
  · cases h

/-- **A directory is at fault by its name, or by the first of its entries that is.** That what they
hold is put together is never a fault. -/
theorem loadEntry_eq_error_iff (honce : files.ListsOnce path)
    (hpath : files.isDirectory path = true) (hlisted : files.visibleEntries path = .ok listed) :
    files.loadEntry options path = .error error
      ↔ path.unitName path.fileName? = .error error
        ∨ (∃ unit, path.unitName path.fileName? = .ok unit)
          ∧ ∃ front name back, listed = front ++ name :: back
            ∧ (∀ entry ∈ front, ∃ one, files.loadEntry options (path.join entry) = .ok one)
            ∧ files.loadEntry options (path.join name) = .error error := by
  have hascending := honce.ascending hpath hlisted
  rw [loadEntry_of_isDirectory hpath, map_eq_error_iff, loadModule_eq, hlisted]
  cases path.unitName path.fileName? with
  | error other => simp [Except.bind]
  | ok unit =>
    show (addEntries _ _ _ listed).map _ = _ ↔ _
    rw [map_eq_error_iff]
    constructor
    · intro h
      obtain ⟨front, name, back, made, rfl, hmade, hfault⟩ := exists_of_addEntries_eq_error h
      obtain ⟨loaded, hloaded, -⟩ := addEntries_eq_ok_iff.1 hmade
      have hfront : ∀ entry ∈ front, ∃ one, files.loadEntry options (path.join entry) = .ok one :=
        fun entry hentry => exists_of_mem_left hloaded hentry
      rcases hfault with hfault | ⟨package, hpackage, hadd⟩
      · exact .inr ⟨⟨unit, rfl⟩, front, name, back, rfl, hfront, hfault⟩
      · -- Up to `name` everything is loaded, and so can be put together.
        have hall : ∀ entry ∈ front ++ [name],
            ∃ one, files.loadEntry options (path.join entry) = .ok one := by
          refine List.forall_mem_append.2 ⟨hfront, ?_⟩
          exact List.forall_mem_singleton.2 ⟨_, hpackage⟩
        obtain ⟨module, hmodule⟩ := exists_module_of_entries unit (pairwise_concat hascending) hall
        rw [addEntries_append hmade, addEntries_singleton hpackage, hadd] at hmodule
        cases hmodule
    · rintro (herror | ⟨-, front, name, back, rfl, hfront, hfault⟩)
      · -- the name is not at fault in this case
        cases herror
      · -- what comes before the entry is put together, and then it fails
        have hsome := hascending.sublist (List.sublist_append_left front _)
        obtain ⟨made, hmade⟩ := exists_module_of_entries unit hsome hfront
        rw [addEntries_append hmade, addEntries_cons_of_error hfault]

end FileSystem

/-! ## What is loaded when entries are deleted -/

namespace FileSystem

open FileName (upTo before CutsAt)

variable {files others : FileSystem} {options : LoadOptions} {path root : Path}
  {tree node : FileNode} {entries : Directory} {listed front back : List FileName}
  {name : FileName} {error : LoadError} {keep : List FileName → Bool}

/-- What an entry holds depends only on its tree. -/
theorem Holds.loadEntry_eq (h : files.Holds path tree) (hother : others.Holds path tree) :
    others.loadEntry options path = files.loadEntry options path := by
  have hsame : tree.SameSeen options path tree :=
    ⟨fun _ node _ hnode _ => ⟨node, hnode, rfl⟩, fun _ node _ hnode _ => ⟨node, hnode, rfl⟩⟩
  cases hconcerns : others.concerns options path with
  | true =>
    refine loadEntry_congr path hconcerns fun names hnames hinner => ?_
    exact hother.sameAt_joinAll h hsame hnames hinner
  | false =>
    have hdirectory := hother.isDirectory_eq h rfl
    have hfiles : files.concerns options path = false := by
      rw [concerns, ← hdirectory]
      exact hconcerns
    rw [loadEntry_of_not_concerns hconcerns, loadEntry_of_not_concerns hfiles]

/-- Of a directory's entries those are gone through that are kept. -/
theorem Holds.visibleEntries_keeping (h : files.Holds path (.directory entries))
    (hother : others.Holds path ((FileNode.directory entries).keeping keep))
    (hpath : files.isDirectory path = true) (hlisted : files.visibleEntries path = .ok listed) :
    others.isDirectory path = true
      ∧ others.visibleEntries path = .ok (listed.filter fun name => keep [name]) := by
  have hlength := (h.isDirectory_iff.1 hpath).2
  have hkept : others.Holds path (.directory (FileNode.keepingAll keep entries)) := hother
  have hotherPath := hkept.isDirectory_iff.2 ⟨⟨_, rfl⟩, hlength⟩
  have hotherListed := hkept.visibleEntries_eq hlength
  refine ⟨hotherPath, hotherListed.trans (congrArg Except.ok ?_)⟩
  refine FileName.eq_of_ascending (hkept.listsOnce.ascending hotherPath hotherListed)
    ((h.listsOnce.ascending hpath hlisted).filter _) fun name => ?_
  rw [hkept.mem_visibleEntries_iff hotherListed hlength, List.mem_filter,
    h.mem_visibleEntries_iff hlisted hlength, FileNode.find?_keepingAll]
  cases keep [name] <;> simp

/-- A directory with all entries before `name` and none after it: the ones before are loaded to
what they were. -/
theorem Holds.cut (h : files.Holds path (.directory entries))
    (hother : others.Holds path ((FileNode.directory entries).keeping keep))
    (hcut : CutsAt keep name) (hpath : files.isDirectory path = true)
    (hlisted : files.visibleEntries path = .ok (front ++ name :: back)) :
    others.isDirectory path = true
      ∧ others.visibleEntries path = .ok (front ++ if keep [name] then [name] else [])
      ∧ ∀ entry ∈ front,
        others.loadEntry options (path.join entry) = files.loadEntry options (path.join entry) := by
  have hascending := h.listsOnce.ascending hpath hlisted
  obtain ⟨hotherPath, hotherListed⟩ := h.visibleEntries_keeping hother hpath hlisted
  rw [hcut.filter_eq hascending] at hotherListed
  refine ⟨hotherPath, hotherListed, fun entry hentry => ?_⟩
  have hlt : entry.order name = .lt :=
    (List.pairwise_append.1 hascending).2.2 entry hentry name List.mem_cons_self
  obtain ⟨-, node, hfind⟩ := (h.mem_visibleEntries_iff hlisted (h.isDirectory_iff.1 hpath).2).1
    (List.mem_append_left _ hentry)
  have hkept : ((FileNode.directory entries).keeping keep).at? [entry] = some node := by
    refine FileNode.at?_singleton_eq_some_iff.2 ?_
    rw [FileNode.find?_keepingAll, if_pos (hcut.of_lt entry [] hlt), hfind, Option.map_some,
      FileNode.keeping_eq_self fun next names => hcut.of_lt entry (next :: names) hlt]
  have hinner := h.of_at? (FileNode.at?_singleton_eq_some_iff.2 hfind)
  exact hinner.loadEntry_eq (hother.of_at? hkept)

/-- What is kept of an entry is seen at its path. -/
theorem Holds.join_of_keeping
    (hother : others.Holds path ((FileNode.directory entries).keeping keep))
    (hfind : Directory.find? name.bytes entries = some node) (hkeep : keep [name] = true) :
    others.Holds (path.join name) (node.keeping fun names => keep (name :: names)) := by
  have hkept : ((FileNode.directory entries).keeping keep).at? [name]
      = some (node.keeping fun names => keep (name :: names)) := by
    refine FileNode.at?_singleton_eq_some_iff.2 ?_
    rw [FileNode.find?_keepingAll, if_pos hkeep, hfind, Option.map_some]
  exact hother.of_at? hkept

theorem Holds.join_of_upTo {last : List FileName}
    (hother : others.Holds path ((FileNode.directory entries).keeping (upTo (name :: last))))
    (hfind : Directory.find? name.bytes entries = some node) :
    others.Holds (path.join name) (node.keeping (upTo last)) := by
  have hinner := hother.join_of_keeping hfind (FileName.upTo_singleton name last)
  simp only [FileName.upTo_cons_self] at hinner
  exact hinner

theorem Holds.join_of_before {next : FileName} {last : List FileName}
    (hother : others.Holds path
      ((FileNode.directory entries).keeping (before (name :: next :: last))))
    (hfind : Directory.find? name.bytes entries = some node) :
    others.Holds (path.join name) (node.keeping (before (next :: last))) := by
  have hinner := hother.join_of_keeping hfind (FileName.before_singleton name next last)
  simp only [FileName.before_cons_self] at hinner
  exact hinner

/-- A fault below an entry, and what comes of deleting. The names lead to the path that the error is
about. It is the same error when everything after these names is deleted, and none when what they
lead to is deleted too. -/
structure FaultAt (options : LoadOptions) (path : Path) (tree : FileNode) (error : LoadError)
    (names : List FileName) : Prop where
  exists_node : ∃ node, tree.at? names = some node
  path_eq : error.path = path.joinAll names
  of_upTo : ∀ others : FileSystem, others.Holds path (tree.keeping (upTo names)) →
    others.loadEntry options path = .error error
  of_before : names ≠ [] → ∀ others : FileSystem, others.Holds path (tree.keeping (before names)) →
    ∃ found, others.loadEntry options path = .ok (Option.map .directory found)

/-- A fault of the entry itself stays whatever is deleted. -/
theorem Holds.faultAt_nil (h : files.Holds path tree)
    (hload : files.loadEntry options path = .error error) (hpath : error.path = path) :
    FaultAt options path tree error [] where
  exists_node := ⟨tree, FileNode.at?_nil tree⟩
  path_eq := hpath
  of_upTo others hother := by
    rw [FileNode.keeping_eq_self fun name names => FileName.upTo_nil (name :: names)] at hother
    exact (h.loadEntry_eq hother).trans hload
  of_before hne := absurd rfl hne

/-- A fault of an entry is one of the directory, if the entries before it are not at fault. -/
theorem Holds.faultAt_cons {names : List FileName} (h : files.Holds path (.directory entries))
    (hpath : files.isDirectory path = true)
    (hname : ∃ unit, path.unitName path.fileName? = .ok unit)
    (hlisted : files.visibleEntries path = .ok (front ++ name :: back))
    (hfront : ∀ entry ∈ front, ∃ one, files.loadEntry options (path.join entry) = .ok one)
    (hfind : Directory.find? name.bytes entries = some node)
    (hfault : FaultAt options (path.join name) node error names) :
    FaultAt options path (.directory entries) error (name :: names) where
  exists_node := by
    obtain ⟨inner, hinner⟩ := hfault.exists_node
    exact ⟨inner, (FileNode.at?_cons_of_find? hfind).trans hinner⟩
  path_eq := hfault.path_eq
  of_upTo others hother := by
    -- up to the fault the directory lists the entry as its last
    obtain ⟨hotherPath, hotherListed, hsame⟩ :=
      h.cut hother (FileName.cutsAt_upTo name names) hpath hlisted
    rw [if_pos (FileName.upTo_singleton name names)] at hotherListed
    refine (loadEntry_eq_error_iff hother.listsOnce hotherPath hotherListed).2
      (.inr ⟨hname, front, name, [], rfl, fun entry hentry => ?_, ?_⟩)
    · rw [hsame entry hentry]
      exact hfront entry hentry
    · exact hfault.of_upTo others (hother.join_of_upTo hfind)
  of_before _ others hother := by
    -- before the fault it lists the entry only if something is left in it
    obtain ⟨hotherPath, hotherListed, hsame⟩ :=
      h.cut hother (FileName.cutsAt_before name names) hpath hlisted
    obtain ⟨unit, hunit⟩ := hname
    have hkept : ∀ entry ∈ front, ∃ one, others.loadEntry options (path.join entry) = .ok one := by
      intro entry hentry
      rw [hsame entry hentry]
      exact hfront entry hentry
    have hloaded : ∃ found, others.loadModule options path = .ok found := by
      refine exists_loadModule hother.listsOnce hotherPath ((path.unitName_eq_ok_iff).1 hunit)
        hotherListed (List.forall_mem_append.2 ⟨hkept, fun entry hentry => ?_⟩)
      cases names with
      | nil =>
        -- The entry itself is deleted.
        rw [if_neg (FileName.not_before_self name)] at hentry
        cases hentry
      | cons next names =>
        rw [if_pos (FileName.before_singleton name next names), List.mem_singleton] at hentry
        subst hentry
        obtain ⟨found, hfound⟩ :=
          hfault.of_before (List.cons_ne_nil next names) others (hother.join_of_before hfind)
        exact ⟨_, hfound⟩
    obtain ⟨found, hfound⟩ := hloaded
    exact ⟨found, by rw [loadEntry_of_isDirectory hotherPath, hfound]; rfl⟩

/-- **An entry that cannot be loaded has a first fault.** -/
theorem Holds.exists_fault (path : Path) {tree : FileNode} (h : files.Holds path tree)
    (hload : files.loadEntry options path = .error error) :
    ∃ names, FaultAt options path tree error names := by
  induction path using loading files generalizing tree with
  | step path ih =>
    cases hpath : files.isDirectory path with
    | false => exact ⟨[], h.faultAt_nil hload (path_of_loadEntry_eq_error hpath hload)⟩
    | true =>
      obtain ⟨⟨entries, rfl⟩, hlength⟩ := h.isDirectory_iff.1 hpath
      have hlisted := h.visibleEntries_eq hlength
      rcases (loadEntry_eq_error_iff h.listsOnce hpath hlisted).1 hload with
        hname | ⟨hname, front, name, back, hnames, hfront, hfault⟩
      · exact ⟨[], h.faultAt_nil hload (Path.path_of_unitName_eq_error hname)⟩
      · rw [hnames] at hlisted
        obtain ⟨-, node, hfind⟩ := (h.mem_visibleEntries_iff hlisted hlength).1
          (List.mem_append_right front List.mem_cons_self)
        have hinner := h.of_at? (FileNode.at?_singleton_eq_some_iff.2 hfind)
        obtain ⟨names, hnames⟩ := ih hpath name hinner hfault
        exact ⟨name :: names, h.faultAt_cons hpath hname hlisted hfront hfind hnames⟩

end FileSystem

/-! ## Roots -/

namespace FileSystem

open FileName (upTo before)

variable {files others : FileSystem} {options : LoadOptions} {root : Path} {tree : FileNode}
  {entries : Directory} {front back : List FileName} {name : FileName} {error : LoadError}
  {node : FileNode} {made : Workspace SourceText} {package : Package SourceText}

/-- What is put together of the entries of a root, one after the other. -/
theorem load_eq_addEntries {listed : List FileName} (hroot : files.isDirectory root = true)
    (hlisted : files.visibleEntries root = .ok listed) :
    files.load options root
      = addEntries (fun name => files.loadEntry options (root.join name)) Workspace.addPackage
        (Workspace.empty root) listed := by
  rw [load_of_isDirectory hroot, hlisted]
  rfl

/-- Only a source is refused: its name is that of a directory before it. -/
theorem exists_source_of_addPackage_eq_error
    (hascending : (front ++ [name]).Pairwise fun a b => a.order b = .lt)
    (hfront : addEntries (fun name => files.loadEntry options (root.join name))
      Workspace.addPackage (Workspace.empty root) front = .ok made)
    (hload : files.loadEntry options (root.join name) = .ok (some package))
    (h : made.addPackage package = .error error) :
    ∃ source, package = .file source ∧ error.path = root.join name := by
  obtain ⟨loaded, hloaded, hadded⟩ := addEntries_eq_ok_iff.1 hfront
  obtain ⟨-, hperm, -⟩ := Workspace.of_addPackages hadded
  rw [Workspace.addPackage, map_eq_error_iff, NameMap.insertNew] at h
  split at h
  next old hold =>
    cases h
    obtain ⟨earlier, hearlier, hpair⟩ :=
      List.mem_map.1 (hperm.mem_iff.1 (NameMap.mem_of_find? hold))
    rw [Prod.mk.injEq] at hpair
    obtain ⟨hname, rfl⟩ := hpair
    obtain ⟨entry, hentry, hentryLoad⟩ := (mem_reduceOption_iff hloaded).1 hearlier
    have hlt := (List.pairwise_append.1 hascending).2.2 entry hentry name List.mem_cons_self
    rw [FileName.order, bytes_of_loadEntry hentryLoad, bytes_of_loadEntry hload] at hlt
    obtain ⟨_, source, -, rfl⟩ := Package.kinds_of_order hname hlt
    exact ⟨source, rfl, path_of_loadEntry hload⟩
  · cases h

/-- So a directory is never refused. -/
theorem exists_addEntries_of_directory {found : Option (Module SourceText)}
    (hascending : (front ++ [name]).Pairwise fun a b => a.order b = .lt)
    (hfront : addEntries (fun name => files.loadEntry options (root.join name))
      Workspace.addPackage (Workspace.empty root) front = .ok made)
    (hload : files.loadEntry options (root.join name) = .ok (Option.map .directory found)) :
    ∃ workspace, addEntries (fun name => files.loadEntry options (root.join name))
      Workspace.addPackage made [name] = .ok workspace := by
  cases found with
  | none =>
    refine ⟨made, ?_⟩
    rw [addEntries, hload]
    rfl
  | some module =>
    rw [addEntries_singleton hload]
    cases hadd : made.addPackage (.directory module) with
    | ok workspace => exact ⟨workspace, rfl⟩
    | error error =>
      obtain ⟨_, hsource, -⟩ :=
        exists_source_of_addPackage_eq_error hascending hfront hload hadd
      cases hsource

/-- The first fault of a root, and what comes of deleting. The names lead to the path that the error
is about. It is the same error when everything after these names is deleted, and none when what they
lead to is deleted too. -/
structure LoadFaultAt (options : LoadOptions) (root : Path) (tree : FileNode) (error : LoadError)
    (names : List FileName) : Prop where
  ne_nil : names ≠ []
  exists_node : ∃ node, tree.at? names = some node
  path_eq : error.path = root.joinAll names
  of_upTo : ∀ others : FileSystem, others.Holds root (tree.keeping (upTo names)) →
    others.load options root = .error error
  of_before : ∀ others : FileSystem, others.Holds root (tree.keeping (before names)) →
    ∃ workspace, others.load options root = .ok workspace

/-- Whichever entries of a root are deleted from `name` on, those before make the same workspace. -/
theorem Holds.load_cut {keep : List FileName → Bool} (h : files.Holds root (.directory entries))
    (hother : others.Holds root ((FileNode.directory entries).keeping keep))
    (hcut : FileName.CutsAt keep name) (hroot : files.isDirectory root = true)
    (hlisted : files.visibleEntries root = .ok (front ++ name :: back))
    (hmade : addEntries (fun name => files.loadEntry options (root.join name))
      Workspace.addPackage (Workspace.empty root) front = .ok made) :
    addEntries (fun name => others.loadEntry options (root.join name)) Workspace.addPackage
        (Workspace.empty root) front = .ok made
      ∧ others.load options root
        = addEntries (fun name => others.loadEntry options (root.join name)) Workspace.addPackage
          made (if keep [name] then [name] else []) := by
  obtain ⟨hotherRoot, hotherListed, hloads⟩ := h.cut hother hcut hroot hlisted
  have hfront := (addEntries_congr hloads).trans hmade
  refine ⟨hfront, ?_⟩
  rw [load_eq_addEntries hotherRoot hotherListed]
  exact addEntries_append hfront _

/-- A fault below an entry is one of the root, if what the entries before hold is put together. -/
theorem Holds.loadFaultAt_of_entry {names : List FileName}
    (h : files.Holds root (.directory entries)) (hroot : files.isDirectory root = true)
    (hlisted : files.visibleEntries root = .ok (front ++ name :: back))
    (hmade : addEntries (fun name => files.loadEntry options (root.join name))
      Workspace.addPackage (Workspace.empty root) front = .ok made)
    (hfind : Directory.find? name.bytes entries = some node)
    (hfault : FaultAt options (root.join name) node error names) :
    LoadFaultAt options root (.directory entries) error (name :: names) where
  ne_nil := List.cons_ne_nil name names
  exists_node := by
    obtain ⟨last, hlast⟩ := hfault.exists_node
    exact ⟨last, (FileNode.at?_cons_of_find? hfind).trans hlast⟩
  path_eq := hfault.path_eq
  of_upTo others hother := by
    obtain ⟨-, hload⟩ := h.load_cut hother (FileName.cutsAt_upTo name names) hroot hlisted hmade
    rw [hload, if_pos (FileName.upTo_singleton name names)]
    exact addEntries_cons_of_error (hfault.of_upTo others (hother.join_of_upTo hfind)) []
  of_before others hother := by
    obtain ⟨hfront, hload⟩ :=
      h.load_cut hother (FileName.cutsAt_before name names) hroot hlisted hmade
    rw [hload]
    -- without names below it the entry itself is cut off
    cases names with
    | nil => exact ⟨made, by rw [if_neg (FileName.not_before_self name)]; rfl⟩
    | cons next names =>
      rw [if_pos (FileName.before_singleton name next names)]
      obtain ⟨found, hfound⟩ :=
        hfault.of_before (List.cons_ne_nil next names) others (hother.join_of_before hfind)
      exact exists_addEntries_of_directory
        (pairwise_concat (h.listsOnce.ascending hroot hlisted)) hfront hfound

/-- A source whose name is taken is a fault of the root. -/
theorem Holds.loadFaultAt_of_clash (h : files.Holds root (.directory entries))
    (hroot : files.isDirectory root = true)
    (hlisted : files.visibleEntries root = .ok (front ++ name :: back))
    (hmade : addEntries (fun name => files.loadEntry options (root.join name))
      Workspace.addPackage (Workspace.empty root) front = .ok made)
    (hfind : Directory.find? name.bytes entries = some node)
    (hpackage : files.loadEntry options (root.join name) = .ok (some package))
    (hadd : made.addPackage package = .error error) :
    LoadFaultAt options root (.directory entries) error [name] where
  ne_nil := List.cons_ne_nil name []
  exists_node := ⟨node, FileNode.at?_singleton_eq_some_iff.2 hfind⟩
  path_eq := by
    obtain ⟨-, -, hpath⟩ := exists_source_of_addPackage_eq_error
      (pairwise_concat (h.listsOnce.ascending hroot hlisted)) hmade hpackage hadd
    exact hpath
  of_upTo others hother := by
    obtain ⟨-, hload⟩ := h.load_cut hother (FileName.cutsAt_upTo name []) hroot hlisted hmade
    rw [hload, if_pos (FileName.upTo_singleton name []), addEntries_singleton, hadd]
    -- nothing inside the entry is deleted, so it is loaded as before
    have hkept := hother.join_of_upTo hfind
    rw [FileNode.keeping_eq_self fun name names => FileName.upTo_nil (name :: names)] at hkept
    have hinner := h.of_at? (FileNode.at?_singleton_eq_some_iff.2 hfind)
    exact (hinner.loadEntry_eq hkept).trans hpackage
  of_before others hother := by
    obtain ⟨-, hload⟩ := h.load_cut hother (FileName.cutsAt_before name []) hroot hlisted hmade
    rw [hload, if_neg (FileName.not_before_self name)]
    exact ⟨made, rfl⟩

/-- **A root that cannot be loaded has a first fault.** -/
theorem Holds.exists_load_fault (h : files.Holds root tree) (hroot : files.isDirectory root = true)
    (hload : files.load options root = .error error) :
    ∃ names, LoadFaultAt options root tree error names := by
  obtain ⟨⟨entries, rfl⟩, hlength⟩ := h.isDirectory_iff.1 hroot
  have hlisted := h.visibleEntries_eq hlength
  rw [load_eq_addEntries hroot hlisted] at hload
  obtain ⟨front, name, back, made, hnames, hmade, hfault⟩ := exists_of_addEntries_eq_error hload
  rw [hnames] at hlisted
  obtain ⟨-, node, hfind⟩ := (h.mem_visibleEntries_iff hlisted hlength).1
    (List.mem_append_right front List.mem_cons_self)
  rcases hfault with hfault | ⟨package, hpackage, hadd⟩
  · have hinner := h.of_at? (FileNode.at?_singleton_eq_some_iff.2 hfind)
    obtain ⟨names, hnames⟩ := hinner.exists_fault (root.join name) hfault
    exact ⟨name :: names, h.loadFaultAt_of_entry hroot hlisted hmade hfind hnames⟩
  · exact ⟨[name], h.loadFaultAt_of_clash hroot hlisted hmade hfind hpackage hadd⟩

end FileSystem

/-! ## A tree with three faults -/

namespace FaultTree

open LibraryTree

def z : FileName := .ofText ['z', '.', 't', 'r'] (by decide)

/-- Three sources that are not UTF-8: `z.tr` and `x.tr` in `library`, and another `z.tr` beside it.
In the order of the paths `library/x.tr` is the first of them. -/
def entries : Directory :=
  [(z, .file [0xff]),
    (library, .directory [(z, .file [0xff]), (x, .file [0xff]), (a, .file [0x62])]),
    (a, .file [])]

/-- The tree without the two faults after the first. -/
def upToX : Directory :=
  [(library, .directory [(x, .file [0xff]), (a, .file [0x62])]), (a, .file [])]

/-- The tree without faults. -/
def beforeX : Directory := [(library, .directory [(a, .file [0x62])]), (a, .file [])]

/-- A place where the path `w` leads to a directory of these entries. -/
def placeOf (entries : Directory) : Place := ⟨[(w, .directory entries)], []⟩

/-- The first fault. -/
def fault : LoadError := .unreadable (root.joinAll [library, x]) .notUtf8

theorem isPlain : (FileNode.directory entries).isPlain = true := by decide

theorem load_entries : (placeOf entries).fileSystem.load .standard root = .error fault := by cbv

end FaultTree

/-! ## The first fault -/

/-- **Loading reports the first fault, whatever order directories are listed in.** Two systems that
list the same directories in different orders load the same workspace or meet the same error. If a
tree without links cannot be loaded from a directory, the error is about an entry below it. With
everything deleted that comes after this entry in the order of paths and is not inside it, loading
meets the same error. With the entry deleted too, and what is inside, loading succeeds. -/
theorem load_reports_first_fault (place : Place) (files : FileSystem) (root : Path)
    (options : LoadOptions) (hfiles : files.Relists place.fileSystem) :
    files.load options root = place.fileSystem.load options root
    ∧ ∀ found error, place.lookup root = .ok (.directory found) → found.tree.Distinct →
      found.tree.LinkFree → files.isDirectory root = true →
      files.load options root = .error error →
      (∃ names node, names ≠ [] ∧ found.tree.at? names = some node
        ∧ error.path = root.joinAll names)
      ∧ ∀ (other left : Place) (others : FileSystem),
        other.lookup root = .ok (.directory left) → others.Relists other.fileSystem →
        (left.tree = found.tree.keeping (fun names =>
            decide ((root.joinAll names).order error.path ≠ .gt
              ∨ error.path.components <+: (root.joinAll names).components)) →
          others.load options root = .error error)
        ∧ (left.tree = found.tree.keeping (fun names =>
            decide ((root.joinAll names).order error.path = .lt)) →
          ∃ workspace, others.load options root = .ok workspace) := by
  refine ⟨hfiles.load_eq, fun found error hroot hdistinct hfree hdirectory hload => ?_⟩
  -- relisting changes nothing, so the system of the place is as good
  rw [hfiles.isDirectory_eq] at hdirectory
  rw [hfiles.load_eq] at hload
  have hnull : 0 ∉ root.bytes := by
    rw [FileSystem.isDirectory, Bool.and_eq_true, Option.isNone_iff_eq_none] at hdirectory
    exact (Path.fault?_eq_none_iff.1 hdirectory.1).1
  have hholds := FileSystem.holds_of_lookup hroot hdistinct hfree hnull
  obtain ⟨names, hfault⟩ := hholds.exists_load_fault hdirectory hload
  obtain ⟨node, hnode⟩ := hfault.exists_node
  refine ⟨⟨names, node, hfault.ne_nil, hnode, hfault.path_eq⟩, ?_⟩
  intro other left others hother hsame
  rw [hsame.load_eq, hfault.path_eq, ← FileName.upTo_eq, ← FileName.before_eq]
  -- both trees are what is left of the one that was found
  have hkept {keep : List FileName → Bool} (hleft : left.tree = found.tree.keeping keep) :
      other.fileSystem.Holds root (found.tree.keeping keep) := by
    rw [← hleft]
    exact FileSystem.holds_of_lookup hother (hleft ▸ hdistinct.keeping keep)
      (hleft ▸ hfree.keeping keep) hnull
  exact ⟨fun hleft => hfault.of_upTo _ (hkept hleft), fun hleft => hfault.of_before _ (hkept hleft)⟩

open FaultTree in
open LibraryTree (root) in
/-- Read backwards, the tree with three faults meets the first, and so does it without the others;
without all three it is loaded. -/
theorem load_reports_fault_of_x :
    (placeOf entries).fileSystem.backwards.load .standard root = .error fault
      ∧ (placeOf upToX).fileSystem.backwards.load .standard root = .error fault
      ∧ ∃ workspace,
        (placeOf beforeX).fileSystem.backwards.load .standard root = .ok workspace := by
  obtain ⟨hload, hfault⟩ := load_reports_first_fault (placeOf entries)
    (placeOf entries).fileSystem.backwards root .standard (FileSystem.relists_backwards _)
  rw [load_entries] at hload
  obtain ⟨-, hdeleted⟩ := hfault ((placeOf entries).enter entries) fault rfl
    (FileNode.distinct_of_isPlain isPlain) (FileNode.linkFree_of_isPlain isPlain) rfl hload
  refine ⟨hload, ?_, ?_⟩
  · exact (hdeleted (placeOf upToX) ((placeOf upToX).enter upToX) _ rfl
      (FileSystem.relists_backwards _)).1 rfl
  · exact (hdeleted (placeOf beforeX) ((placeOf beforeX).enter beforeX) _ rfl
      (FileSystem.relists_backwards _)).2 rfl

end Lexis
