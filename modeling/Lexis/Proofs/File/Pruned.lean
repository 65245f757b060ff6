import Lexis.Proofs.File.Tree

/-!
# Trees without some of their entries

An entry is deleted with all that lies in it. What is left of a tree is what it holds at the names
that are kept, all the way down.

- `FileNode.keeping`: a tree without the entries that are not kept.
- `FileNode.find?_keepingAll`, `FileNode.map_fst_keepingAll`: what is left of a directory.
- `FileNode.Distinct.keeping`, `FileNode.LinkFree.keeping`: no names are doubled and no links made.
- `FileName.upTo`, `FileName.before`: the names that are kept when all is deleted that comes after
  some names, and when what these lead to is deleted as well.
- `FileName.CutsAt`: what either does to the directory on the way.
- `FileName.upTo_eq`, `FileName.before_eq`: both can be told by the paths.
-/

namespace Lexis

/-! ## Deleting from a tree -/

namespace FileNode

mutual

/-- The tree with the entries, at any depth, whose names on the way are kept. Whatever lies in an
entry goes with it. -/
def keeping (keep : List FileName → Bool) : FileNode → FileNode
  | file contents => file contents
  | link target => link target
  | directory entries => directory (keepingAll keep entries)

/-- The entries of a directory that are kept. -/
def keepingAll (keep : List FileName → Bool) :
    List (FileName × FileNode) → List (FileName × FileNode)
  | [] => []
  | (name, node) :: rest =>
    if keep [name] then
      (name, keeping (fun names => keep (name :: names)) node) :: keepingAll keep rest
    else keepingAll keep rest

end

variable {keep : List FileName → Bool} {node inner : FileNode} {entries : Directory}
  {name : FileName} {names : List FileName}

theorem map_fst_keepingAll :
    (keepingAll keep entries).map Prod.fst
      = (entries.map Prod.fst).filter fun name => keep [name] := by
  induction entries with
  | nil => rfl
  | cons entry entries ih =>
    obtain ⟨name, node⟩ := entry
    rw [keepingAll, List.map_cons, List.filter_cons]
    split
    next hkeep => rw [List.map_cons, ih]
    next hkeep => exact ih

theorem find?_keepingAll :
    Directory.find? name.bytes (keepingAll keep entries)
      = if keep [name] then
          (Directory.find? name.bytes entries).map (keeping fun names => keep (name :: names))
        else none := by
  induction entries with
  | nil => rw [keepingAll, Directory.find?]; split <;> rfl
  | cons entry entries ih =>
    obtain ⟨other, node⟩ := entry
    rw [keepingAll, Directory.find?]
    by_cases hname : other.bytes = name.bytes
    · obtain rfl := FileName.ext hname
      rw [if_pos rfl]
      split
      next hkeep => rw [Directory.find?, if_pos rfl, Option.map_some]
      next hkeep => rw [ih, if_neg hkeep]
    · rw [if_neg hname]
      split
      next hkeep => rw [Directory.find?, if_neg hname, ih]
      next hkeep => exact ih

mutual

/-- Where every entry is kept, the tree stays as it is. -/
theorem keeping_eq_self {keep : List FileName → Bool}
    (h : ∀ name names, keep (name :: names) = true) :
    (node : FileNode) → node.keeping keep = node
  | file _ => rfl
  | link _ => rfl
  | directory entries => congrArg directory (keepingAll_eq_self h entries)

theorem keepingAll_eq_self {keep : List FileName → Bool}
    (h : ∀ name names, keep (name :: names) = true) :
    (entries : List (FileName × FileNode)) → keepingAll keep entries = entries
  | [] => rfl
  | (name, node) :: rest => by
    rw [keepingAll, if_pos (h name []), keepingAll_eq_self h rest,
      keeping_eq_self (fun next names => h name (next :: names)) node]

end

/-- What a tree still holds at some names was there before, perhaps with more in it. -/
theorem exists_of_at?_keeping (h : (node.keeping keep).at? names = some inner) :
    ∃ whole rest, node.at? names = some whole ∧ inner = whole.keeping rest := by
  induction names generalizing node keep with
  | nil =>
    rw [at?_nil, Option.some.injEq] at h
    exact ⟨node, keep, at?_nil node, h.symm⟩
  | cons name names ih =>
    obtain ⟨others, next, hothers, hfind, hnext⟩ := exists_of_at?_cons h
    cases node with
    | file => cases hothers
    | link => cases hothers
    | directory entries =>
      obtain rfl : keepingAll keep entries = others := directory.inj hothers
      rw [find?_keepingAll] at hfind
      split at hfind
      · obtain ⟨below, hbelow, rfl⟩ := Option.map_eq_some_iff.1 hfind
        obtain ⟨whole, rest, hwhole, rfl⟩ := ih hnext
        exact ⟨whole, rest, (at?_cons_of_find? hbelow).trans hwhole, rfl⟩
      · cases hfind

theorem Distinct.keeping (h : node.Distinct) (keep : List FileName → Bool) :
    (node.keeping keep).Distinct := by
  intro names entries hentries
  obtain ⟨whole, rest, hwhole, hkept⟩ := exists_of_at?_keeping hentries
  cases whole with
  | file => cases hkept
  | link => cases hkept
  | directory others =>
    obtain rfl := directory.inj hkept
    rw [map_fst_keepingAll]
    exact (h names others hwhole).filter _

theorem LinkFree.keeping (h : node.LinkFree) (keep : List FileName → Bool) :
    (node.keeping keep).LinkFree := by
  intro names target htarget
  obtain ⟨whole, rest, hwhole, hkept⟩ := exists_of_at?_keeping htarget
  cases whole with
  | file => cases hkept
  | directory => cases hkept
  | link other => exact h names other hwhole

end FileNode

/-! ## Names up to others -/

namespace FileName

/-- Whether names do not come after `last`, or lead on from where `last` ends. -/
def upTo (last names : List FileName) : Bool :=
  decide (List.compareLex order names last ≠ .gt ∨ last <+: names)

/-- Whether names come before `last`. -/
def before (last names : List FileName) : Bool := decide (List.compareLex order names last = .lt)

/-- Of the entries of a directory all before `name` are kept, with whatever lies in them, and none
after it. -/
structure CutsAt (keep : List FileName → Bool) (name : FileName) : Prop where
  of_lt : ∀ other names, other.order name = .lt → keep (other :: names) = true
  of_gt : ∀ other, name.order other = .lt → keep [other] = false

variable {keep : List FileName → Bool} {name : FileName} {names front back : List FileName}

theorem upTo_nil (names : List FileName) : upTo [] names = true :=
  decide_eq_true (.inr (List.nil_prefix))

theorem upTo_cons_self (name : FileName) (last names : List FileName) :
    upTo (name :: last) (name :: names) = upTo last names := by
  rw [upTo, upTo, List.compareLex_cons_cons, order_self]
  simp only [List.cons_prefix_cons, true_and]
  rfl

theorem before_cons_self (name : FileName) (last names : List FileName) :
    before (name :: last) (name :: names) = before last names := by
  rw [before, before, List.compareLex_cons_cons, order_self]
  rfl

theorem upTo_singleton (name : FileName) (last : List FileName) :
    upTo (name :: last) [name] = true := by
  rw [upTo_cons_self]
  cases last <;> rfl

theorem before_singleton (name next : FileName) (last : List FileName) :
    before (name :: next :: last) [name] = true := by
  rw [before_cons_self]
  rfl

theorem not_before_self (name : FileName) : ¬ before [name] [name] = true := by
  rw [before_cons_self]
  decide

theorem cutsAt_upTo (name : FileName) (last : List FileName) :
    CutsAt (upTo (name :: last)) name where
  of_lt other names hlt := by
    refine decide_eq_true (.inl ?_)
    rw [List.compareLex_cons_cons, hlt]
    exact Ordering.noConfusion
  of_gt other hgt := by
    have hother : other.order name = .gt := Std.OrientedCmp.gt_of_lt hgt
    refine decide_eq_false (not_or.2 ⟨?_, fun hprefix => ?_⟩)
    · rw [List.compareLex_cons_cons, hother]
      exact not_not.2 rfl
    · obtain rfl := (List.cons_prefix_cons.1 hprefix).1
      rw [order_self] at hgt
      cases hgt

theorem cutsAt_before (name : FileName) (last : List FileName) :
    CutsAt (before (name :: last)) name where
  of_lt other names hlt := by
    refine decide_eq_true ?_
    rw [List.compareLex_cons_cons, hlt]
    rfl
  of_gt other hgt := by
    have hother : other.order name = .gt := Std.OrientedCmp.gt_of_lt hgt
    refine decide_eq_false ?_
    rw [List.compareLex_cons_cons, hother]
    exact Ordering.noConfusion

/-- What is left of ascending names. -/
theorem CutsAt.filter_eq (h : CutsAt keep name)
    (hascending : (front ++ name :: back).Pairwise fun a b => a.order b = .lt) :
    (front ++ name :: back).filter (fun other => keep [other])
      = front ++ if keep [name] then [name] else [] := by
  obtain ⟨-, hback, hfront⟩ := List.pairwise_append.1 hascending
  have hkept : front.filter (fun other => keep [other]) = front :=
    List.filter_eq_self.2 fun other hother => h.of_lt other [] (hfront other hother name (by simp))
  have hlost : back.filter (fun other => keep [other]) = [] := by
    refine List.filter_eq_nil_iff.2 fun other hother => ?_
    rw [h.of_gt other ((List.pairwise_cons.1 hback).1 other hother)]
    decide
  rw [List.filter_append, List.filter_cons, hkept, hlost]

/-! ### Paths -/

theorem component_injective : Function.Injective component :=
  fun _ _ h => FileName.ext (Component.name.inj h)

/-- Names below a root lead on from where others end exactly if their path does. -/
theorem prefix_components_iff (root : Path) (last names : List FileName) :
    (root.joinAll last).components <+: (root.joinAll names).components ↔ last <+: names := by
  rw [Path.components_joinAll, Path.components_joinAll, List.prefix_append_right_inj]
  exact List.prefix_map_iff_of_injective component_injective

/-- Whether names are kept can be told by the paths that they lead to. -/
theorem upTo_eq (root : Path) (last : List FileName) :
    upTo last = fun names => decide ((root.joinAll names).order (root.joinAll last) ≠ .gt
      ∨ (root.joinAll last).components <+: (root.joinAll names).components) := by
  funext names
  rw [upTo, decide_eq_decide, root.order_joinAll, prefix_components_iff]

theorem before_eq (root : Path) (last : List FileName) :
    before last = fun names => decide ((root.joinAll names).order (root.joinAll last) = .lt) := by
  funext names
  rw [before, decide_eq_decide, root.order_joinAll]

end FileName

end Lexis
