import Lexis.Workspace.Basic

/-!
# Workspaces with other models

To give every source another model changes nothing of where sources are, in what order they come
and how many there are.

- `Module.allSources_map`, `Package.sources_map`, `Workspace.sources_map`: the sources afterwards
  are those before, each with its other model.
- `Workspace.sourceCount_eq`: sources are counted as many as are listed.
- `Module.map_map`, `Package.map_map`, `Workspace.map_map`: other models in place of other models.
-/

namespace Lexis

universe u v w

variable {α : Type u} {β : Type v} {γ : Type w}

namespace Module

mutual

theorem allSources_map (f : α → β) (module : Module α) :
    (module.map f).allSources = module.allSources.map (SourceUnit.map f) := by
  cases module with
  | mk path name sources submodules =>
    rw [map, allSources, allSources, List.map_append, allSourcesOf_mapAll f submodules,
      List.map_map, List.map_map]
    rfl

theorem allSourcesOf_mapAll (f : α → β) (modules : List (UnitName × Module α)) :
    allSourcesOf (mapAll f modules) = (allSourcesOf modules).map (SourceUnit.map f) := by
  match modules with
  | [] => rfl
  | (key, module) :: rest =>
    rw [mapAll, allSourcesOf, allSourcesOf, List.map_append, allSources_map f module,
      allSourcesOf_mapAll f rest]

end

mutual

theorem map_map (f : α → β) (g : β → γ) (module : Module α) :
    (module.map f).map g = module.map (g ∘ f) := by
  cases module with
  | mk path name sources submodules =>
    rw [map, map, map, List.map_map, mapAll_mapAll f g submodules]
    rfl

theorem mapAll_mapAll (f : α → β) (g : β → γ) (modules : List (UnitName × Module α)) :
    mapAll g (mapAll f modules) = mapAll (g ∘ f) modules := by
  match modules with
  | [] => rfl
  | (key, module) :: rest =>
    rw [mapAll, mapAll, mapAll, map_map f g module, mapAll_mapAll f g rest]

end

end Module

theorem Package.sources_map (f : α → β) (package : Package α) :
    (package.map f).sources = package.sources.map (SourceUnit.map f) := by
  cases package with
  | file source => rfl
  | directory module => exact module.allSources_map f

theorem Package.map_map (f : α → β) (g : β → γ) (package : Package α) :
    (package.map f).map g = package.map (g ∘ f) := by
  cases package with
  | file source => rfl
  | directory module => exact congrArg directory (module.map_map f g)

namespace Workspace

/-- Other models leave the paths, so the order stays. -/
theorem sortByPath_map (f : α → β) (sources : List (SourceUnit α)) :
    sortByPath (sources.map (SourceUnit.map f)) = (sortByPath sources).map (SourceUnit.map f) := by
  rw [sortByPath, sortByPath]
  refine (List.map_mergeSort ?_).symm
  intro a _ b _
  rfl

/-- **The sources of a workspace with other models** are its own, each with its other model. -/
theorem sources_map (f : α → β) (workspace : Workspace α) :
    (workspace.map f).sources = workspace.sources.map (SourceUnit.map f) := by
  rw [sources, sources, ← sortByPath_map, map, List.flatMap_map, List.map_flatMap]
  exact congrArg _ (congrArg (List.flatMap · workspace.packages)
    (funext fun entry => entry.2.sources_map f))

/-- Sources are counted as many as are listed. -/
theorem sourceCount_eq (workspace : Workspace α) :
    workspace.sourceCount = workspace.sources.length := by
  rw [sources, sortByPath, List.length_mergeSort, List.length_flatMap, List.sum_eq_foldr]
  rfl

/-- Other models in place of other models are other models. -/
theorem map_map (f : α → β) (g : β → γ) (workspace : Workspace α) :
    (workspace.map f).map g = workspace.map (g ∘ f) := by
  rw [map, map, map, List.map_map]
  refine congrArg (mk workspace.root) (List.map_congr_left fun entry _ => ?_)
  exact congrArg (Prod.mk entry.1) (entry.2.map_map f g)

end Workspace

end Lexis
