import Lexis.File.Tree
import Lexis.Proofs.File.Path

/-!
# What is seen of a tree of files

Once a path leads to a directory, names after it lead to what the directory's tree holds at those
names: no link stands on the way, so it makes no difference how many were followed before.

- `FileNode.at?`: what a tree holds at names, passing through directories only.
- `FileNode.Distinct`, `FileNode.LinkFree`: no directory of a tree has two entries of one name, and
  no entry is a link.
- `FileNode.isPlain`: whether a tree is known to be both.
- `Place.Distinct`: and so for the directories that a place lies in; paths lead to such places only.
- `Place.follow_leads`: after some steps the rest is walked from one place, or all is lost.
- `Place.lookup_joinAll`: names below a directory are walked from it.
- `FileSystem.Shows`, `Place.showsBelow`: a file system says of a path what a node says.
-/

namespace Lexis

/-! ## Trees -/

namespace Directory

variable {entries : Directory} {name : FileName} {node : FileNode}

/-- Where names differ, an entry is what is found under its name. -/
theorem find?_eq_some_iff (h : (entries.map Prod.fst).Nodup) :
    find? name.bytes entries = some node ↔ (name, node) ∈ entries := by
  induction entries with
  | nil => simp [find?]
  | cons entry entries ih =>
    obtain ⟨other, found⟩ := entry
    obtain ⟨hother, hentries⟩ := List.nodup_cons.1 h
    rw [find?, List.mem_cons]
    by_cases hname : other.bytes = name.bytes
    · obtain rfl := FileName.ext hname
      have habsent : (other, node) ∉ entries := fun hmem =>
        hother (List.mem_map.2 ⟨_, hmem, rfl⟩)
      simp [habsent, eq_comm]
    · have hne : name ≠ other := fun heq => hname (by rw [heq])
      simp [hname, hne, ih hentries]

theorem exists_mem_of_find? {bytes : List UInt8} (h : find? bytes entries = some node) :
    ∃ name : FileName, name.bytes = bytes ∧ (name, node) ∈ entries := by
  induction entries with
  | nil => cases h
  | cons entry entries ih =>
    obtain ⟨name, found⟩ := entry
    rw [find?] at h
    split at h
    next hname =>
      cases h
      exact ⟨name, hname, List.mem_cons_self⟩
    · obtain ⟨other, hother, hmem⟩ := ih h
      exact ⟨other, hother, List.mem_cons_of_mem _ hmem⟩

theorem mem_of_find? (h : find? name.bytes entries = some node) : (name, node) ∈ entries := by
  obtain ⟨other, hother, hmem⟩ := exists_mem_of_find? h
  rwa [← FileName.ext hother]

end Directory

namespace FileNode

/-- What a node holds at a path of names that passes through directories only. -/
def at? : FileNode → List FileName → Option FileNode
  | node, [] => some node
  | .directory entries, name :: names =>
    match Directory.find? name.bytes entries with
    | some node => node.at? names
    | none => none
  | .file _, _ :: _ => none
  | .link _, _ :: _ => none

variable {node inner : FileNode} {name : FileName} {names : List FileName} {entries : Directory}

@[simp] theorem at?_nil (node : FileNode) : node.at? [] = some node := by
  cases node <;> rfl

theorem at?_cons_of_find? (h : Directory.find? name.bytes entries = some inner) :
    (directory entries).at? (name :: names) = inner.at? names := by
  rw [at?, h]

theorem at?_singleton_eq_some_iff :
    (directory entries).at? [name] = some inner
      ↔ Directory.find? name.bytes entries = some inner := by
  rw [at?]
  cases Directory.find? name.bytes entries <;> simp

/-- Only a directory holds something at names. -/
theorem exists_of_at?_cons (h : node.at? (name :: names) = some inner) :
    ∃ entries next, node = .directory entries ∧ Directory.find? name.bytes entries = some next
      ∧ next.at? names = some inner := by
  cases node with
  | directory entries =>
    rw [at?] at h
    split at h
    next next hfind => exact ⟨entries, next, rfl, hfind, h⟩
    · cases h
  | file => cases h
  | link => cases h

theorem at?_append (node : FileNode) (names more : List FileName) :
    node.at? (names ++ more) = (node.at? names).bind (·.at? more) := by
  induction names generalizing node with
  | nil => rw [at?_nil]; rfl
  | cons name names ih =>
    cases node with
    | directory entries =>
      rw [List.cons_append, at?, at?]
      split
      next next _ => exact ih next
      · rfl
    | file => rfl
    | link => rfl

/-- No directory of the tree has two entries of one name. -/
def Distinct (node : FileNode) : Prop :=
  ∀ names entries, node.at? names = some (.directory entries) → (entries.map Prod.fst).Nodup

/-- No entry of the tree is a link. -/
def LinkFree (node : FileNode) : Prop :=
  ∀ names target, node.at? names ≠ some (.link target)

theorem Distinct.nodup (h : (directory entries).Distinct) : (entries.map Prod.fst).Nodup :=
  h [] entries (at?_nil _)

theorem Distinct.of_at? (h : node.Distinct) (hinner : node.at? names = some inner) :
    inner.Distinct := by
  intro more entries hmore
  refine h (names ++ more) entries ?_
  rw [at?_append, hinner]
  exact hmore

theorem LinkFree.of_at? (h : node.LinkFree) (hinner : node.at? names = some inner) :
    inner.LinkFree := by
  intro more target hmore
  refine h (names ++ more) target ?_
  rw [at?_append, hinner]
  exact hmore

mutual

/-- Whether no directory of a tree has two entries of one name, and no entry is a link. -/
def isPlain : FileNode → Bool
  | file _ => true
  | link _ => false
  | directory entries => decide (entries.map Prod.fst).Nodup && allPlain entries

/-- Whether all entries of a directory are such trees. -/
def allPlain : List (FileName × FileNode) → Bool
  | [] => true
  | (_, node) :: rest => isPlain node && allPlain rest

end

theorem isPlain_of_mem (h : allPlain entries = true) {entry : FileName × FileNode}
    (hentry : entry ∈ entries) : entry.2.isPlain = true := by
  induction entries with
  | nil => cases hentry
  | cons first rest ih =>
    rw [allPlain, Bool.and_eq_true] at h
    rcases List.mem_cons.1 hentry with rfl | hentry
    · exact h.1
    · exact ih h.2 hentry

theorem isPlain_of_at? (h : node.isPlain = true) (hinner : node.at? names = some inner) :
    inner.isPlain = true := by
  induction names generalizing node with
  | nil =>
    obtain rfl : node = inner := by simpa using hinner
    exact h
  | cons name names ih =>
    obtain ⟨entries, next, rfl, hfind, hnext⟩ := exists_of_at?_cons hinner
    rw [isPlain, Bool.and_eq_true] at h
    exact ih (isPlain_of_mem h.2 (Directory.mem_of_find? hfind)) hnext

theorem distinct_of_isPlain (h : node.isPlain = true) : node.Distinct := by
  intro names entries hentries
  have hplain := isPlain_of_at? h hentries
  rw [isPlain, Bool.and_eq_true, decide_eq_true_eq] at hplain
  exact hplain.1

theorem linkFree_of_isPlain (h : node.isPlain = true) : node.LinkFree := by
  intro names target htarget
  cases isPlain_of_at? h htarget

end FileNode

/-! ## Following steps -/

namespace Place

/-- The tree that a place is the top of. -/
def tree (place : Place) : FileNode := .directory place.here

/-- After some steps `run` either fails whatever follows, or walks what follows from one place. -/
def Leads (run : List Component → Except FileFault Target) (steps : List Component) : Prop :=
  (∃ fault, ∀ more, run (steps ++ more) = .error fault)
    ∨ ∃ target onLink, ∀ more, run (steps ++ more) = walk onLink target more

/-- Where the steps after an entry of a place lead. -/
def onward (onLink : Place → List Component → Except FileFault Target) (place : Place)
    (steps : List Component) : FileNode → Except FileFault Target
  | .file contents => walk onLink (.file contents) steps
  | .directory inner => walk onLink (.directory (place.enter inner)) steps
  | .link path => onLink place (path.steps ++ steps)

theorem walk_name (onLink : Place → List Component → Except FileFault Target)
    (steps : List Component) {place : Place} {bytes : List UInt8} {node : FileNode}
    (hlength : ¬ nameLimit < bytes.length) (hfind : Directory.find? bytes place.here = some node) :
    walk onLink (.directory place) (.name bytes :: steps) = onward onLink place steps node := by
  rw [walk, if_neg hlength, hfind]
  cases node <;> rfl

theorem walk_leads {onLink : Place → List Component → Except FileFault Target}
    (h : ∀ place steps, Leads (onLink place) steps) (target : Target) (steps : List Component) :
    Leads (walk onLink target) steps := by
  induction steps generalizing target with
  | nil => exact .inr ⟨target, onLink, fun _ => rfl⟩
  | cons step steps ih =>
    cases target with
    -- nothing is below a file
    | file contents => exact .inl ⟨.notDirectory, fun _ => rfl⟩
    | directory place =>
      cases step with
      -- steps that name nothing lead to a directory again
      | root => exact ih (.directory place.root)
      | here => exact ih (.directory place)
      | parent => exact ih (.directory place.parent)
      | name bytes =>
        by_cases hlength : nameLimit < bytes.length
        · refine .inl ⟨.nameTooLong, fun more => ?_⟩
          rw [List.cons_append, walk, if_pos hlength]
        · cases hfind : Directory.find? bytes place.here with
          | none =>
            refine .inl ⟨.missing, fun more => ?_⟩
            rw [List.cons_append, walk, if_neg hlength, hfind]
          | some node =>
            -- What is found under the name decides where the rest is walked from.
            have hstep (more : List Component) := walk_name onLink (steps ++ more) hlength hfind
            simp only [Leads, List.cons_append, hstep]
            cases node with
            | file contents => exact ih (.file contents)
            | directory inner => exact ih (.directory (place.enter inner))
            | link path =>
              have hlink := h place (path.steps ++ steps)
              simpa only [Leads, onward, List.append_assoc] using hlink

/-- Links on the way make no difference to what can be said of the steps that follow. -/
theorem follow_leads (links : Nat) (place : Place) (steps : List Component) :
    Leads (follow links place) steps := by
  induction links generalizing place steps with
  | zero =>
    rw [follow]
    exact walk_leads (fun _ _ => .inl ⟨.tooManyLinks, fun _ => rfl⟩) _ _
  | succ links ih =>
    rw [follow]
    exact walk_leads ih _ _

variable {place found : Place} {root : Path} {names : List FileName} {node : FileNode}

/-- Below a directory that a path leads to, names are walked from the directory. -/
theorem lookup_joinAll (h : place.lookup root = .ok (.directory found)) (hnames : names ≠ []) :
    ∃ onLink, place.lookup (root.joinAll names)
      = walk onLink (.directory found) (names.map FileName.component) := by
  have hroot : root.bytes ≠ [] := by
    intro hnil
    rw [lookup, hnil] at h
    cases h
  have hjoin : (root.joinAll names).bytes ≠ [] := by
    have hlength := root.length_le_joinAll names
    have hpos := List.length_pos_of_ne_nil hroot
    exact List.ne_nil_of_length_pos (by omega)
  rw [lookup, if_neg (by simpa using hroot)] at h
  obtain ⟨front, hfront, hsteps⟩ := root.exists_steps_joinAll names
  rw [lookup, if_neg (by simpa using hjoin), hsteps hnames]
  obtain ⟨fault, hfault⟩ | ⟨target, onLink, htarget⟩ := follow_leads linkLimit place front
  · -- The directory itself would not be found.
    rcases hfront with hfront | hfront
    · rw [hfront, ← List.append_nil front, hfault] at h
      cases h
    · rw [hfront, hfault] at h
      cases h
  · -- the steps of the root lead to the directory, with a slash behind it or not
    have hdirectory : target = .directory found := by
      rcases hfront with hfront | hfront
      · rw [hfront, ← List.append_nil front, htarget] at h
        cases h
        rfl
      · rw [hfront, htarget] at h
        cases target with
        | file => cases h
        | directory => cases h; rfl
    exact ⟨onLink, by rw [htarget, hdirectory]⟩

/-- A target is what a node is: a directory of the same entries, or a file of the same contents. -/
def Target.Is : Target → FileNode → Prop
  | .directory place, .directory entries => place.here = entries
  | .file contents, .file other => contents = other
  | _, _ => False

/-- Names lead from a place to what its tree holds there. -/
theorem exists_walk_of_at? (h : place.tree.at? names = some node)
    (hnode : ∀ target, node ≠ .link target) :
    ∃ target, target.Is node
      ∧ ∀ onLink, walk onLink (.directory place) (names.map FileName.component) = .ok target := by
  induction names generalizing place with
  | nil =>
    obtain rfl : place.tree = node := by simpa using h
    exact ⟨.directory place, rfl, fun _ => rfl⟩
  | cons name names ih =>
    obtain ⟨entries, next, hentries, hfind, hnext⟩ := FileNode.exists_of_at?_cons h
    obtain rfl : place.here = entries := FileNode.directory.inj hentries
    have hlength : ¬ nameLimit < name.bytes.length := Nat.not_lt.2 name.length_le
    cases next with
    -- the walk goes on in the directory
    | directory inner =>
      have hinner : (place.enter inner).tree.at? names = some node := hnext
      obtain ⟨target, his, hwalk⟩ := ih hinner
      refine ⟨target, his, fun onLink => ?_⟩
      rw [List.map_cons, FileName.component, walk_name _ _ hlength hfind]
      exact hwalk onLink
    -- a file and a link have nothing below them
    | file contents =>
      cases names with
      | cons => cases hnext
      | nil =>
        obtain rfl : FileNode.file contents = node := by simpa using hnext
        refine ⟨.file contents, rfl, fun onLink => ?_⟩
        rw [List.map_cons, FileName.component, walk_name _ _ hlength hfind]
        rfl
    | link path =>
      cases names with
      | cons => cases hnext
      | nil => exact absurd (by simpa using hnext.symm) (hnode path)

end Place

/-! ## Places whose directories have distinct names -/

namespace Place

/-- No directory of the place's tree, and none of those that the place lies in, has two entries of
one name. -/
def Distinct (place : Place) : Prop :=
  ∀ entries ∈ place.here :: place.above, (FileNode.directory entries).Distinct

variable {place found : Place}

theorem Distinct.tree (h : place.Distinct) : place.tree.Distinct := h _ List.mem_cons_self

theorem Distinct.parent (h : place.Distinct) : place.parent.Distinct := by
  obtain ⟨here, above⟩ := place
  cases above with
  | nil => exact h
  | cons outer above => exact fun entries hentries => h entries (List.mem_cons_of_mem _ hentries)

theorem Distinct.root (h : place.Distinct) : place.root.Distinct := by
  intro entries hentries
  obtain rfl := List.mem_singleton.1 hentries
  exact h _ List.getLastD_mem_cons

theorem Distinct.enter {bytes : List UInt8} {inner : Directory} (h : place.Distinct)
    (hfind : Directory.find? bytes place.here = some (.directory inner)) :
    (place.enter inner).Distinct := by
  have hbelow : (FileNode.directory inner).Distinct := by
    obtain ⟨name, rfl, -⟩ := Directory.exists_mem_of_find? hfind
    exact h.tree.of_at? (FileNode.at?_singleton_eq_some_iff.2 hfind)
  exact List.forall_mem_cons.2 ⟨hbelow, h⟩

/-- What steps lead to keeps distinct names, whatever links are followed on the way. -/
theorem Distinct.of_walk {onLink : Place → List Component → Except FileFault Target}
    (honLink : ∀ (place : Place) steps, place.Distinct →
      onLink place steps = .ok (.directory found) → found.Distinct)
    {steps : List Component} (h : place.Distinct)
    (hwalk : walk onLink (.directory place) steps = .ok (.directory found)) : found.Distinct := by
  induction steps generalizing place with
  | nil => cases hwalk; exact h
  | cons step steps ih =>
    cases step with
    | root => exact ih h.root hwalk
    | here => exact ih h hwalk
    | parent => exact ih h.parent hwalk
    | name bytes =>
      -- a name leads into a directory of the tree, or over a link to any place
      by_cases hlength : nameLimit < bytes.length
      · rw [walk, if_pos hlength] at hwalk
        cases hwalk
      · cases hfind : Directory.find? bytes place.here with
        | none =>
          rw [walk, if_neg hlength, hfind] at hwalk
          cases hwalk
        | some node =>
          rw [walk_name _ _ hlength hfind] at hwalk
          cases node with
          | file => cases steps <;> cases hwalk
          | directory inner => exact ih (h.enter hfind) hwalk
          | link path => exact honLink place _ h hwalk

theorem Distinct.of_follow {links : Nat} {steps : List Component} (h : place.Distinct)
    (hfollow : follow links place steps = .ok (.directory found)) : found.Distinct := by
  induction links generalizing place steps with
  | zero =>
    rw [follow] at hfollow
    exact of_walk (fun _ _ _ hlink => by cases hlink) h hfollow
  | succ links ih =>
    rw [follow] at hfollow
    exact of_walk (fun _ _ hplace hlink => ih hplace hlink) h hfollow

theorem Distinct.of_lookup {path : Path} (h : place.Distinct)
    (hlookup : place.lookup path = .ok (.directory found)) : found.Distinct := by
  rw [lookup] at hlookup
  split at hlookup
  · cases hlookup
  · exact h.of_follow hlookup

end Place

/-! ## What a file system shows -/

namespace FileSystem

/-- A file system says of a path what a node says. Nothing is asked of links. -/
def Shows (files : FileSystem) (path : Path) : FileNode → Prop
  | .file contents => files.leadsToDirectory path = false ∧ files.read path = .ok contents
  | .directory entries =>
    files.leadsToDirectory path = true ∧ files.list path = .ok (entries.map Prod.fst)
  | .link _ => True

/-- A file system says of the paths below one what a tree says. -/
def ShowsBelow (files : FileSystem) (path : Path) (tree : FileNode) : Prop :=
  ∀ names node, tree.at? names = some node → files.Shows (path.joinAll names) node

variable {files : FileSystem} {path : Path} {tree node : FileNode} {name : FileName}
  {entries : Directory} {contents : List UInt8}

theorem ShowsBelow.shows (h : files.ShowsBelow path tree) : files.Shows path tree :=
  h [] tree (FileNode.at?_nil tree)

theorem ShowsBelow.of_at? {names : List FileName} (h : files.ShowsBelow path tree)
    (hnode : tree.at? names = some node) : files.ShowsBelow (path.joinAll names) node := by
  intro more inner hinner
  rw [← path.joinAll_append names more]
  refine h (names ++ more) inner ?_
  rw [FileNode.at?_append, hnode]
  exact hinner

theorem Shows.isDirectory_file (h : files.Shows path (.file contents)) :
    files.isDirectory path = false := by
  rw [isDirectory, h.1, Bool.and_false]

/-- A directory is seen as one if its path may be asked about. -/
theorem Shows.isDirectory_directory (h : files.Shows path (.directory entries)) :
    files.isDirectory path = path.fault?.isNone := by
  rw [isDirectory, h.1, Bool.and_true]

theorem Shows.entries_directory (h : files.Shows path (.directory entries))
    (hpath : path.fault? = none) :
    files.entries path
      = .ok ((entries.map Prod.fst).mergeSort fun a b => (a.order b).isLE) := by
  rw [FileSystem.entries, hpath, h.2]
  rfl

theorem Shows.readText_file (h : files.Shows path (.file contents)) (hpath : path.fault? = none) :
    files.readText path = (Text.Utf8.decode? contents).elim (.error .notUtf8) .ok := by
  cases hdecode : Text.Utf8.decode? contents <;> simp [readText, hpath, h.2, hdecode]

end FileSystem

namespace Place

variable {place found : Place} {root : Path}

/-- What is seen below a directory from any place is the directory's tree. -/
theorem showsBelow (h : place.lookup root = .ok (.directory found)) :
    place.fileSystem.ShowsBelow root found.tree := by
  intro names node hnode
  have hshows (target : Target) (hlookup : place.lookup (root.joinAll names) = .ok target)
      (his : target.Is node) : place.fileSystem.Shows (root.joinAll names) node := by
    cases target with
    | file contents =>
      cases node with
      | file other => exact his ▸ ⟨by simp [fileSystem, hlookup], by simp [fileSystem, hlookup]⟩
      | _ => exact his.elim
    | directory inner =>
      cases node with
      | directory entries =>
        exact his ▸ ⟨by simp [fileSystem, hlookup], by simp [fileSystem, hlookup]⟩
      | _ => exact his.elim
  cases names with
  | nil =>
    obtain rfl : found.tree = node := by simpa using hnode
    exact hshows (.directory found) h rfl
  | cons name names =>
    -- of a link nothing is said
    by_cases hlink : ∃ target, node = .link target
    · obtain ⟨target, rfl⟩ := hlink
      trivial
    · obtain ⟨target, his, hwalk⟩ := exists_walk_of_at? hnode (not_exists.1 hlink)
      obtain ⟨onLink, hlookup⟩ := lookup_joinAll h (List.cons_ne_nil name names)
      exact hshows target (hlookup.trans (hwalk onLink)) his

end Place

end Lexis
