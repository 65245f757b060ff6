import Mathlib
import Lexis.Proofs.Workspace.Map
import Lexis.Proofs.Workspace.Sources
import Lexis.Workspace.Basic

/-!
# Workspaces source by source

A workspace is a tree of maps, and nothing says in which order a map is gone through. The list of
the sources does not tell: it has what the tree holds, in the order of the paths, and where no two
sources have one path there is one such list. To give the sources other models is to do so one by
one, in the tree as in the list.

- `NameMap.Corresponds`, `Module.Corresponds`, `Workspace.Corresponds`: two trees with the same
  keys, names and paths and with related models, whatever the order of their maps.
- `Workspace.HoldsAt`: the source that keys lead to.
- `Workspace.Lists`: a list of what a workspace holds, in the order of the paths.
- `Workspace.corresponds_map`: other models leave the tree.
- `Workspace.lists_sources`, `Workspace.Corresponds.sources_eq`: what the sources are, and that
  trees which correspond list them alike.
- `map_is_pointwise`: all of this, and what comes of it for the scans of a workspace.
-/

namespace Lexis

variable {α β γ : Type} {r : α → β → Prop} {f : α → β}

/-! ## Trees that correspond -/

/-- Maps with the same keys and related values, whatever the order in which they are gone
through. -/
inductive NameMap.Corresponds (r : α → β → Prop) : NameMap α → NameMap β → Prop
  | nil : Corresponds r [] []
  | cons {a : α} {b : β} {rest : NameMap α} {others : NameMap β} (key : UnitName) (hvalue : r a b)
      (hrest : Corresponds r rest others) : Corresponds r ((key, a) :: rest) ((key, b) :: others)
  | reorder {entries again : NameMap α} {others : NameMap β} (hperm : entries.Perm again)
      (h : Corresponds r again others) : Corresponds r entries others

/-- Sources in one place, with related models. -/
structure SourceUnit.Corresponds (r : α → β → Prop) (source : SourceUnit α)
    (other : SourceUnit β) : Prop where
  path_eq : source.path = other.path
  name_eq : source.name = other.name
  model : r source.model other.model

/-- Modules in one place, with corresponding sources and modules in them. -/
inductive Module.Corresponds (r : α → β → Prop) : Module α → Module β → Prop
  | mk (path : Path) (name : UnitName) {sources : NameMap (SourceUnit α)}
      {others : NameMap (SourceUnit β)} {submodules : NameMap (Module α)}
      {modules : NameMap (Module β)}
      (hsources : NameMap.Corresponds (SourceUnit.Corresponds r) sources others)
      (hsubmodules : NameMap.Corresponds (Module.Corresponds r) submodules modules) :
      Corresponds r (.mk path name sources submodules) (.mk path name others modules)

/-- Packages of one kind, in one place, with corresponding sources. -/
inductive Package.Corresponds (r : α → β → Prop) : Package α → Package β → Prop
  | file {source : SourceUnit α} {other : SourceUnit β} (h : source.Corresponds r other) :
      Corresponds r (.file source) (.file other)
  | directory {module : Module α} {other : Module β} (h : module.Corresponds r other) :
      Corresponds r (.directory module) (.directory other)

/-- Workspaces at one root, with corresponding packages. -/
structure Workspace.Corresponds (r : α → β → Prop) (workspace : Workspace α)
    (other : Workspace β) : Prop where
  root_eq : workspace.root = other.root
  packages : NameMap.Corresponds (Package.Corresponds r) workspace.packages other.packages

/-- What holds of modules with corresponding sources, and with submodules of which it holds pair by
pair, holds of modules that correspond. -/
theorem Module.Corresponds.induct {motive : Module α → Module β → Prop}
    (step : ∀ (path : Path) (name : UnitName) (sources : NameMap (SourceUnit α))
      (others : NameMap (SourceUnit β)) (submodules : NameMap (Module α))
      (modules : NameMap (Module β)),
      NameMap.Corresponds (SourceUnit.Corresponds r) sources others →
      NameMap.Corresponds motive submodules modules →
      motive (.mk path name sources submodules) (.mk path name others modules))
    {module : Module α} {other : Module β} (h : module.Corresponds r other) :
    motive module other :=
  @Module.Corresponds.rec α β r (fun module other _ => motive module other)
    (fun submodules modules _ => NameMap.Corresponds motive submodules modules)
    (fun path name _ _ _ _ hsources _ ih => step path name _ _ _ _ hsources ih)
    .nil
    (fun key _ _ hvalue hrest => .cons key hvalue hrest)
    (fun hperm _ ih => .reorder hperm ih)
    module other h

/-! ## Other models -/

theorem SourceUnit.corresponds_map (f : α → β) (source : SourceUnit α) :
    source.Corresponds (f · = ·) (source.map f) :=
  ⟨rfl, rfl, rfl⟩

/-- To change every value of a map leaves its keys. -/
theorem NameMap.corresponds_map {g : α → β} (h : ∀ a, r a (g a)) (entries : NameMap α) :
    NameMap.Corresponds r entries (entries.map fun (key, a) => (key, g a)) := by
  induction entries with
  | nil => exact .nil
  | cons entry entries ih => exact .cons entry.1 (h entry.2) ih

mutual

theorem Module.corresponds_map (f : α → β) (module : Module α) :
    module.Corresponds (f · = ·) (module.map f) := by
  cases module with
  | mk path name sources submodules =>
    have hsources := NameMap.corresponds_map (SourceUnit.corresponds_map f) sources
    have hsubmodules := Module.corresponds_mapAll f submodules
    rw [Module.map]
    exact .mk path name hsources hsubmodules

theorem Module.corresponds_mapAll (f : α → β) (modules : List (UnitName × Module α)) :
    NameMap.Corresponds (Module.Corresponds (f · = ·)) modules (Module.mapAll f modules) := by
  match modules with
  | [] => exact .nil
  | (key, module) :: rest =>
    rw [Module.mapAll]
    exact .cons key (Module.corresponds_map f module) (Module.corresponds_mapAll f rest)

end

/-- Other models leave the tree: its root, its keys, its names, its paths and what is in what. -/
theorem Workspace.corresponds_map (f : α → β) (workspace : Workspace α) :
    workspace.Corresponds (f · = ·) (workspace.map f) := by
  have hpackage : ∀ package : Package α, package.Corresponds (f · = ·) (package.map f) := by
    intro package
    cases package with
    | file source => exact .file (source.corresponds_map f)
    | directory module => exact .directory (module.corresponds_map f)
  exact ⟨rfl, NameMap.corresponds_map hpackage workspace.packages⟩

/-! ## Sources as the maps are gone through -/

/-- Maps that correspond make the same of their values, taken together. -/
theorem NameMap.Corresponds.flatMap_perm {δ : Type} {g : α → List δ} {k : β → List δ}
    {entries : NameMap α} {others : NameMap β} (h : NameMap.Corresponds r entries others)
    (hr : ∀ a b, r a b → (g a).Perm (k b)) :
    (entries.flatMap fun entry => g entry.2).Perm (others.flatMap fun entry => k entry.2) := by
  induction h with
  | nil => exact .refl _
  | cons key hvalue _ ih =>
    rw [List.flatMap_cons, List.flatMap_cons]
    exact (hr _ _ hvalue).append ih
  | reorder hperm _ ih => exact (hperm.flatMap_right _).trans ih

theorem SourceUnit.Corresponds.eq_map {source : SourceUnit α} {other : SourceUnit β}
    (h : source.Corresponds (f · = ·) other) : source.map f = other := by
  obtain ⟨hpath, hname, hmodel⟩ := h
  unfold SourceUnit.map
  rw [hpath, hname, hmodel]

theorem Module.Corresponds.allSources_perm {module : Module α} {other : Module β}
    (h : module.Corresponds (f · = ·) other) :
    (module.allSources.map (SourceUnit.map f)).Perm other.allSources := by
  refine h.induct (motive := fun module other =>
    (module.allSources.map (SourceUnit.map f)).Perm other.allSources) ?_
  intro path name sources others submodules modules hsources hsubmodules
  have hown := hsources.flatMap_perm (g := fun source => [source.map f]) (k := fun other => [other])
    fun a b hab => by rw [hab.eq_map]
  have hinner := hsubmodules.flatMap_perm (g := fun module => module.allSources.map (.map f))
    (k := Module.allSources) fun a b hab => hab
  rw [Module.allSources_eq, Module.allSources_eq, List.map_append, List.map_flatMap]
  rw [← List.map_eq_flatMap, ← List.map_eq_flatMap] at hown
  refine List.Perm.append ?_ hinner
  rw [List.map_map]
  exact hown

namespace Workspace

/-- Every source, as the maps are gone through. -/
def gathered (workspace : Workspace α) : List (SourceUnit α) :=
  workspace.packages.flatMap fun entry => entry.2.sources

theorem sources_eq_sortByPath (workspace : Workspace α) :
    workspace.sources = sortByPath workspace.gathered := rfl

theorem sources_perm_gathered (workspace : Workspace α) :
    workspace.sources.Perm workspace.gathered :=
  List.mergeSort_perm _ _

theorem Corresponds.gathered_perm {workspace : Workspace α} {other : Workspace β}
    (h : workspace.Corresponds (f · = ·) other) :
    (workspace.gathered.map (SourceUnit.map f)).Perm other.gathered := by
  unfold gathered
  rw [List.map_flatMap]
  refine h.packages.flatMap_perm (g := fun package => package.sources.map (.map f))
    (k := Package.sources) fun package next hpackage => ?_
  cases hpackage with
  | file hsource =>
    show [_].Perm [_]
    rw [hsource.eq_map]
  | directory hmodule => exact hmodule.allSources_perm

end Workspace

/-! ## What a tree holds -/

/-- A module holds a source at its key, and what is in a module in it at the key of that module and
the keys in it. -/
inductive Module.HoldsAt : Module α → List UnitName → SourceUnit α → Prop
  | own {module : Module α} {key : UnitName} {source : SourceUnit α}
      (hsource : (key, source) ∈ module.sources) : HoldsAt module [key] source
  | inner {module next : Module α} {key : UnitName} {keys : List UnitName} {source : SourceUnit α}
      (hnext : (key, next) ∈ module.submodules) (h : HoldsAt next keys source) :
      HoldsAt module (key :: keys) source

/-- A package that is a source holds it at no further key. -/
inductive Package.HoldsAt : Package α → List UnitName → SourceUnit α → Prop
  | file (source : SourceUnit α) : HoldsAt (.file source) [] source
  | directory {module : Module α} {keys : List UnitName} {source : SourceUnit α}
      (h : module.HoldsAt keys source) : HoldsAt (.directory module) keys source

/-- A workspace holds a source at the key of its package and the keys in that. -/
inductive Workspace.HoldsAt (workspace : Workspace α) : List UnitName → SourceUnit α → Prop
  | mk {key : UnitName} {package : Package α} {keys : List UnitName} {source : SourceUnit α}
      (hpackage : (key, package) ∈ workspace.packages) (h : package.HoldsAt keys source) :
      HoldsAt workspace (key :: keys) source

/-- Every map in the module has each of its keys once. -/
inductive Module.IsKeyed : Module α → Prop
  | mk {module : Module α} (hsources : (module.sources.map Prod.fst).Nodup)
      (hsubmodules : (module.submodules.map Prod.fst).Nodup)
      (hinner : ∀ entry ∈ module.submodules, IsKeyed entry.2) : IsKeyed module

/-- Every map in the workspace has each of its keys once. -/
structure Workspace.IsKeyed (workspace : Workspace α) : Prop where
  nodup : (workspace.packages.map Prod.fst).Nodup
  modules : ∀ key module, (key, .directory module) ∈ workspace.packages → module.IsKeyed

/-- No two places of a tree hold sources with one path. -/
def PathsDiffer (holds : List UnitName → SourceUnit α → Prop) : Prop :=
  ∀ keys others a b, holds keys a → holds others b → a.path.order b.path = .eq → keys = others

/-- A list of what a workspace holds: nothing else, all of it, and each source once, since the paths
ascend. -/
structure Workspace.Lists (workspace : Workspace α) (sources : List (SourceUnit α)) : Prop where
  mem_iff : ∀ source, source ∈ sources ↔ ∃ keys, workspace.HoldsAt keys source
  ascending : sources.Pairwise fun a b => a.path.order b.path = .lt

namespace Module

theorem HoldsAt.mem {module : Module α} {keys : List UnitName} {source : SourceUnit α}
    (h : module.HoldsAt keys source) : source ∈ module.allSources := by
  induction h with
  | own hsource =>
    rw [allSources_eq, List.mem_append]
    exact .inl (List.mem_map_of_mem hsource)
  | inner hnext _ ih =>
    rw [allSources_eq, List.mem_append]
    exact .inr (List.mem_flatMap.2 ⟨_, hnext, ih⟩)

theorem HoldsAt.ne_nil {module : Module α} {keys : List UnitName} {source : SourceUnit α}
    (h : module.HoldsAt keys source) : keys ≠ [] := by
  cases h with
  | own => exact List.cons_ne_nil _ _
  | inner => exact List.cons_ne_nil _ _

mutual

theorem exists_holdsAt (module : Module α) {source : SourceUnit α}
    (h : source ∈ module.allSources) : ∃ keys, module.HoldsAt keys source := by
  cases module with
  | mk path name sources submodules =>
    rw [allSources, List.mem_append] at h
    rcases h with h | h
    · obtain ⟨entry, hentry, rfl⟩ := List.mem_map.1 h
      exact ⟨[entry.1], .own hentry⟩
    · obtain ⟨entry, hentry, keys, hkeys⟩ := exists_holdsAt_of submodules h
      exact ⟨entry.1 :: keys, .inner hentry hkeys⟩

theorem exists_holdsAt_of (modules : List (UnitName × Module α)) {source : SourceUnit α}
    (h : source ∈ allSourcesOf modules) :
    ∃ entry ∈ modules, ∃ keys, entry.2.HoldsAt keys source := by
  match modules with
  | [] => exact absurd h List.not_mem_nil
  | (key, module) :: rest =>
    rw [allSourcesOf, List.mem_append] at h
    rcases h with h | h
    · exact ⟨(key, module), List.mem_cons_self, exists_holdsAt module h⟩
    · obtain ⟨entry, hentry, hholds⟩ := exists_holdsAt_of rest h
      exact ⟨entry, List.mem_cons_of_mem _ hentry, hholds⟩

end

/-- Where all maps have each key once and no two places hold sources with one path, no two sources
that are gathered have one path. -/
theorem IsKeyed.pairwise_allSources {module : Module α} (h : module.IsKeyed)
    (hpaths : PathsDiffer module.HoldsAt) :
    module.allSources.Pairwise fun a b => a.path.order b.path ≠ .eq := by
  induction h with
  | @mk module hsources hsubmodules _ ih =>
    rw [allSources_eq, List.pairwise_append, List.pairwise_map, List.pairwise_flatMap]
    refine ⟨?own, ⟨fun entry hentry => ?inside, ?across⟩, ?between⟩
    -- two sources of the module have different keys
    case own =>
      refine (List.pairwise_map.1 hsources).imp_of_mem fun {a b} ha hb hne heq => hne ?_
      exact List.head_eq_of_cons_eq (hpaths [a.1] [b.1] _ _ (.own ha) (.own hb) heq)
    -- two sources in one submodule differ behind its key
    case inside =>
      refine ih entry hentry fun keys others a b ha hb heq => ?_
      exact List.tail_eq_of_cons_eq (hpaths _ _ a b (.inner hentry ha) (.inner hentry hb) heq)
    -- sources in two submodules differ in the keys of these
    case across =>
      refine (List.pairwise_map.1 hsubmodules).imp_of_mem fun {entry other} hentry hother hne => ?_
      intro a ha b hb heq
      obtain ⟨keys, hkeys⟩ := exists_holdsAt entry.2 ha
      obtain ⟨others, hothers⟩ := exists_holdsAt other.2 hb
      have hsame := hpaths _ _ a b (.inner hentry hkeys) (.inner hother hothers) heq
      exact hne (List.head_eq_of_cons_eq hsame)
    -- a source of the module has a shorter list of keys than one in a submodule
    case between =>
      intro a ha b hb heq
      obtain ⟨entry, hentry, rfl⟩ := List.mem_map.1 ha
      obtain ⟨next, hnext, hb⟩ := List.mem_flatMap.1 hb
      obtain ⟨keys, hkeys⟩ := exists_holdsAt next.2 hb
      have hsame := hpaths _ _ entry.2 b (.own hentry) (.inner hnext hkeys) heq
      exact hkeys.ne_nil (List.tail_eq_of_cons_eq hsame).symm

end Module

theorem Package.mem_sources_iff {package : Package α} {source : SourceUnit α} :
    source ∈ package.sources ↔ ∃ keys, package.HoldsAt keys source := by
  cases package with
  | file own =>
    show source ∈ [own] ↔ _
    rw [List.mem_singleton]
    constructor
    · rintro rfl
      exact ⟨[], .file source⟩
    · rintro ⟨keys, hholds⟩
      cases hholds
      rfl
  | directory module =>
    show source ∈ module.allSources ↔ _
    constructor
    · intro h
      obtain ⟨keys, hkeys⟩ := module.exists_holdsAt h
      exact ⟨keys, .directory hkeys⟩
    · rintro ⟨keys, hholds⟩
      cases hholds with
      | directory h => exact h.mem

namespace Workspace

variable {workspace : Workspace α}

theorem mem_sources_iff {source : SourceUnit α} :
    source ∈ workspace.sources ↔ ∃ keys, workspace.HoldsAt keys source := by
  rw [workspace.sources_perm_gathered.mem_iff, gathered, List.mem_flatMap]
  constructor
  · rintro ⟨entry, hentry, hsource⟩
    obtain ⟨keys, hkeys⟩ := Package.mem_sources_iff.1 hsource
    exact ⟨entry.1 :: keys, .mk hentry hkeys⟩
  · rintro ⟨keys, hholds⟩
    cases hholds with
    | mk hpackage h => exact ⟨_, hpackage, Package.mem_sources_iff.2 ⟨_, h⟩⟩

theorem IsKeyed.pairwise_gathered (h : workspace.IsKeyed) (hpaths : PathsDiffer workspace.HoldsAt) :
    workspace.gathered.Pairwise fun a b => a.path.order b.path ≠ .eq := by
  rw [gathered, List.pairwise_flatMap]
  constructor
  · rintro ⟨key, package⟩ hentry
    cases package with
    | file source => exact List.pairwise_singleton _ _
    | directory module =>
      refine (h.modules key module hentry).pairwise_allSources fun keys others a b ha hb heq => ?_
      exact List.tail_eq_of_cons_eq
        (hpaths _ _ a b (.mk hentry (.directory ha)) (.mk hentry (.directory hb)) heq)
  · refine (List.pairwise_map.1 h.nodup).imp_of_mem fun {entry other} hentry hother hne => ?_
    intro a ha b hb heq
    obtain ⟨keys, hkeys⟩ := Package.mem_sources_iff.1 ha
    obtain ⟨others, hothers⟩ := Package.mem_sources_iff.1 hb
    have hsame := hpaths _ _ a b (.mk hentry hkeys) (.mk hother hothers) heq
    exact hne (List.head_eq_of_cons_eq hsame)

/-- Sources no two of which have one path are sorted to ascending paths. -/
theorem pairwise_sortByPath {sources : List (SourceUnit α)}
    (h : sources.Pairwise fun a b => a.path.order b.path ≠ .eq) :
    (sortByPath sources).Pairwise fun a b => a.path.order b.path = .lt := by
  have htrans : Std.TransCmp fun a b : SourceUnit α => a.path.order b.path :=
    transCmp_map SourceUnit.path
  have hdiffer : (sortByPath sources).Pairwise fun a b => a.path.order b.path ≠ .eq := by
    refine (List.Perm.pairwise_iff ?_ (List.mergeSort_perm sources _)).2 h
    exact fun hne heq => hne (Std.OrientedCmp.eq_symm heq)
  refine (pairwise_mergeSort sources).imp₂ (fun a b hle hne => ?_) hdiffer
  cases horder : a.path.order b.path with
  | lt => rfl
  | eq => exact absurd horder hne
  | gt => rw [horder] at hle; cases hle

/-- **The sources of a workspace** are what it holds, in the order of the paths. -/
theorem lists_sources (hkeyed : workspace.IsKeyed) (hpaths : PathsDiffer workspace.HoldsAt) :
    workspace.Lists workspace.sources :=
  ⟨fun _ => mem_sources_iff, pairwise_sortByPath (hkeyed.pairwise_gathered hpaths)⟩

/-- **Trees that correspond list their sources alike**: source by source, in one order. -/
theorem Corresponds.sources_eq {other : Workspace β} (h : workspace.Corresponds (f · = ·) other)
    (hlists : workspace.Lists workspace.sources) :
    other.sources = workspace.sources.map (SourceUnit.map f) := by
  rw [other.sources_eq_sortByPath]
  refine sortByPath_eq (List.pairwise_map.2 hlists.ascending) ?_
  exact h.gathered_perm.symm.trans (workspace.sources_perm_gathered.map _).symm

/-- Other models leave what is listed a list of what is held. -/
theorem Corresponds.lists_sources {other : Workspace β}
    (h : workspace.Corresponds (f · = ·) other) (hlists : workspace.Lists workspace.sources) :
    other.Lists other.sources := by
  refine ⟨fun _ => mem_sources_iff, ?_⟩
  rw [h.sources_eq hlists]
  exact List.pairwise_map.2 hlists.ascending

/-- The order of the maps makes no difference to the sources. -/
theorem Corresponds.sources_same {other : Workspace α} (h : workspace.Corresponds (· = ·) other)
    (hlists : workspace.Lists workspace.sources) : other.sources = workspace.sources := by
  have hsources := h.sources_eq (f := id) hlists
  have hid : SourceUnit.map (id : α → α) = id := rfl
  rw [hid, List.map_id] at hsources
  exact hsources

end Workspace

/-! ## Scans -/

namespace Workspace

variable {texts : Workspace SourceText} {lexed : Workspace LexedSource}

/-- The failures of a workspace are in the order of the paths, as its sources are. -/
theorem Lists.pairwise_failures (h : lexed.Lists lexed.sources) :
    lexed.failures.Pairwise fun a b => a.path.order b.path = .lt :=
  h.ascending.filter _

theorem mem_failures_iff {source : SourceUnit LexedSource} :
    source ∈ lexed.failures
      ↔ (∃ keys, lexed.HoldsAt keys source) ∧ source.model.scan.error.isSome = true := by
  unfold failures Scan.isOk
  rw [List.mem_filter, mem_sources_iff, Option.not_isNone]

/-- Trees that correspond, one of texts and one of their scans, list the same lexemes. -/
theorem Corresponds.lexemeCount_eq (h : texts.Corresponds (LexedSource.ofText · = ·) lexed)
    (hlists : texts.Lists texts.sources) :
    lexed.lexemeCount
      = (texts.sources.map fun source => source.model.scan.lexemes.length).sum := by
  unfold lexemeCount
  rw [h.sources_eq hlists, List.map_map, List.sum_eq_foldr]
  rfl

end Workspace

/-- **To give the sources of a workspace other models is to do so source by source.** Where every
map has each key once and no two sources have one path, the sources are what the tree holds, in the
order of the paths, as many as are counted, and whatever the order of the maps. Other models leave
the tree, and the list of the sources but for the models; models in place of models are models.

So every source is scanned to its own text and the scan of that. The failures are those with an
error, in the order of the paths, and the lexemes are counted source by source. -/
theorem map_is_pointwise :
    (∀ {α β γ : Type} (workspace : Workspace α) (f : α → β) (g : β → γ),
      workspace.IsKeyed → PathsDiffer workspace.HoldsAt →
        workspace.Lists workspace.sources ∧
        workspace.sourceCount = workspace.sources.length ∧
        (∀ other, workspace.Corresponds (· = ·) other →
          other.sources = workspace.sources ∧ other.sourceCount = workspace.sourceCount) ∧
        workspace.Corresponds (f · = ·) (workspace.map f) ∧
        (∀ mapped, workspace.Corresponds (f · = ·) mapped →
          mapped.sources = workspace.sources.map (SourceUnit.map f)) ∧
        (workspace.map f).map g = workspace.map (g ∘ f)) ∧
    ∀ texts : Workspace SourceText, texts.IsKeyed → PathsDiffer texts.HoldsAt →
      texts.Corresponds (LexedSource.ofText · = ·) texts.lex ∧
      ∀ lexed, texts.Corresponds (LexedSource.ofText · = ·) lexed →
        List.Forall₂
          (SourceUnit.Corresponds fun text model => model.contents = text ∧ model.scan = text.scan)
          texts.sources lexed.sources ∧
        (lexed.failures.Pairwise fun a b => a.path.order b.path = .lt) ∧
        (∀ source, source ∈ lexed.failures
          ↔ (∃ keys, lexed.HoldsAt keys source) ∧ source.model.scan.error.isSome = true) ∧
        lexed.lexemeCount
          = (texts.sources.map fun source => source.model.scan.lexemes.length).sum := by
  constructor
  · -- a workspace that corresponds to this one lists the same sources
    intro α β γ workspace f g hkeyed hpaths
    have hlists := Workspace.lists_sources hkeyed hpaths
    refine ⟨hlists, workspace.sourceCount_eq, fun other hother => ?_, workspace.corresponds_map f,
      fun mapped hmapped => hmapped.sources_eq hlists, workspace.map_map f g⟩
    have hsources := hother.sources_same hlists
    refine ⟨hsources, ?_⟩
    rw [other.sourceCount_eq, workspace.sourceCount_eq, hsources]
  · -- scanning each source is one way of giving it another model
    intro texts hkeyed hpaths
    have hlists := Workspace.lists_sources hkeyed hpaths
    refine ⟨texts.corresponds_map LexedSource.ofText, fun lexed hlexed => ?_⟩
    have hsources := hlexed.sources_eq hlists
    refine ⟨?_, (hlexed.lists_sources hlists).pairwise_failures,
      fun source => Workspace.mem_failures_iff, hlexed.lexemeCount_eq hlists⟩
    rw [hsources, List.forall₂_map_right_iff, List.forall₂_same]
    exact fun source _ => ⟨rfl, rfl, rfl, rfl⟩

section Nested

/-! A source `k.tr` beside a directory `m` with a source `k.tr` and a directory `m` with a third
one, which has no closing quote. -/

def kName : UnitName := ⟨['k'], by decide⟩

def mName : UnitName := ⟨['m'], by decide⟩

def outerSource : SourceUnit SourceText := ⟨.ofText ['k', '.', 't', 'r'], kName, ⟨['b']⟩⟩

def middleSource : SourceUnit SourceText :=
  ⟨.ofText ['m', '/', 'k', '.', 't', 'r'], kName, ⟨['b', ' ', 'c']⟩⟩

def innerSource : SourceUnit SourceText :=
  ⟨.ofText ['m', '/', 'm', '/', 'k', '.', 't', 'r'], kName, ⟨['"']⟩⟩

def innerModule : Module SourceText :=
  .mk (.ofText ['m', '/', 'm']) mName [(kName, innerSource)] []

def outerModule : Module SourceText :=
  .mk (.ofText ['m']) mName [(kName, middleSource)] [(mName, innerModule)]

def nested : Workspace SourceText where
  root := .ofText []
  packages := [(kName, .file outerSource), (mName, .directory outerModule)]

/-- The same workspace, with its packages in another order. -/
def nestedAgain : Workspace SourceText where
  root := .ofText []
  packages := [(mName, .directory outerModule), (kName, .file outerSource)]

theorem isKeyed_nested : nested.IsKeyed := by
  have hinner : innerModule.IsKeyed := .mk (by decide) (by decide) fun entry h => by cases h
  have houter : outerModule.IsKeyed := by
    refine .mk (by decide) (by decide) fun entry h => ?_
    obtain rfl := List.mem_singleton.1 h
    exact hinner
  refine ⟨by decide, fun key module h => ?_⟩
  cases h with
  | tail _ h =>
    cases h with
    | head => exact houter
    | tail _ h => cases h

theorem holdsAt_nested {keys : List UnitName} {source : SourceUnit SourceText}
    (h : nested.HoldsAt keys source) :
    keys = [kName] ∧ source = outerSource ∨ keys = [mName, kName] ∧ source = middleSource
      ∨ keys = [mName, mName, kName] ∧ source = innerSource := by
  cases h with
  | mk hpackage h =>
    simp only [nested, List.mem_cons, Prod.mk.injEq, List.not_mem_nil, or_false] at hpackage
    rcases hpackage with ⟨rfl, rfl⟩ | ⟨rfl, rfl⟩
    · cases h
      exact .inl ⟨rfl, rfl⟩
    · cases h with
      | directory h =>
        cases h with
        | own hsource =>
          cases List.mem_singleton.1 hsource
          exact .inr (.inl ⟨rfl, rfl⟩)
        | inner hnext h =>
          cases List.mem_singleton.1 hnext
          cases h with
          | own hsource =>
            cases List.mem_singleton.1 hsource
            exact .inr (.inr ⟨rfl, rfl⟩)
          | inner hnext => cases hnext

theorem pathsDiffer_nested : PathsDiffer nested.HoldsAt := by
  intro keys others a b ha hb heq
  rcases holdsAt_nested ha with ⟨rfl, rfl⟩ | ⟨rfl, rfl⟩ | ⟨rfl, rfl⟩ <;>
    rcases holdsAt_nested hb with ⟨rfl, rfl⟩ | ⟨rfl, rfl⟩ | ⟨rfl, rfl⟩ <;>
      first
        | rfl
        | exact absurd heq (by decide)

theorem corresponds_nestedAgain : nested.Corresponds (· = ·) nestedAgain := by
  have hfile : (Package.file outerSource).Corresponds (· = ·) (.file outerSource) :=
    .file ⟨rfl, rfl, rfl⟩
  have hinner : innerModule.Corresponds (· = ·) innerModule :=
    .mk _ _ (.cons _ ⟨rfl, rfl, rfl⟩ .nil) .nil
  have houter : outerModule.Corresponds (· = ·) outerModule :=
    .mk _ _ (.cons _ ⟨rfl, rfl, rfl⟩ .nil) (.cons _ hinner .nil)
  exact ⟨rfl, .reorder (.swap _ _ _) (.cons _ (.directory houter) (.cons _ hfile .nil))⟩

/-- The sources of three nested directories are listed in one order, whatever that of the packages.
One of them is scanned to an error, and the others have three lexemes. -/
theorem map_is_pointwise_nested :
    nested.sources = [outerSource, middleSource, innerSource] ∧
      nestedAgain.sources = nested.sources ∧
      (nested.map fun text => text.chars.length).sources.map SourceUnit.model = [1, 3, 1] ∧
      nested.lex.failures = [innerSource.map LexedSource.ofText] ∧ nested.lex.lexemeCount = 3 := by
  have hsources : nested.sources = [outerSource, middleSource, innerSource] :=
    Workspace.sortByPath_eq (by decide) (.refl _)
  obtain ⟨hpointwise, hlexed⟩ := map_is_pointwise
  obtain ⟨-, -, hagain, hcorresponds, hmapped, -⟩ := hpointwise nested
    (fun text => text.chars.length) id isKeyed_nested pathsDiffer_nested
  obtain ⟨hlex, hscans⟩ := hlexed nested isKeyed_nested pathsDiffer_nested
  obtain ⟨-, -, -, hcount⟩ := hscans nested.lex hlex
  refine ⟨hsources, (hagain nestedAgain corresponds_nestedAgain).1, ?_, ?_, ?_⟩
  · rw [hmapped _ hcorresponds, hsources]
    rfl
  · rw [Workspace.failures, Workspace.lex, Workspace.sources_map, hsources]
    decide +kernel
  · rw [hcount, hsources]
    decide +kernel

end Nested

end Lexis
