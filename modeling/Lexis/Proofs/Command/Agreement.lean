import Mathlib
import Lexis.Command.Line
import Lexis.Proofs.Text.Lines
import Lexis.Proofs.Workspace.Map
import Lexis.Proofs.Workspace.Sources
import Lexis.Proofs.Workspace.Tree

/-!
# Checking a workspace agrees with listing its files

Checking goes over a workspace as a whole: it is loaded, then all of it is scanned, then its errors
are gathered and its sources and lexemes are counted. Listing reads one file and scans it. Both say
the same of every source, since a source of a loaded workspace is what its own path is read to.

- `FileSystem.lexFile_of_readSource`: a source that can be read is listed.
- `SourceUnit.unlines_diagnostic`: what checking says about a source is what listing says about it.
- `Report.Gathers`: a report on a whole that says what the reports on its files say.
- `check_agrees_with_lex`: outcome, errors and counts of a check are those of the listings.
-/

namespace Lexis

/-! ## One source -/

/-- The heading of a listing that has so many lexemes. -/
def listingHeading (path : Path) (count : Nat) : String :=
  "Lexemes for '" ++ path.display ++ "' (" ++ toString count ++ " lexemes):"

namespace SourceUnit

/-- The report on a source by itself: its lexemes, and its error. -/
def listing (spans : Bool) (source : SourceUnit SourceText) : Report :=
  ⟨source.model.scan.isOk, lexListing spans source.path source.model.scan.lexemes,
    source.model.scan.error.elim [] fun error => error.diagnostic source.path source.model⟩

/-- The heading of a listing says how many lexemes the source has. -/
theorem head?_out_listing (spans : Bool) (source : SourceUnit SourceText) :
    (source.listing spans).out.head? =
      some (listingHeading source.path source.model.scan.lexemes.length) := rfl

/-- What checking says about a source with an error is what its listing says, and an empty line. -/
theorem unlines_diagnostic (spans : Bool) {source : SourceUnit SourceText}
    (h : source.model.scan.isOk = false) :
    Text.unlines (source.map LexedSource.ofText).diagnostic =
      (source.listing spans).errText ++ "\n" := by
  rw [Scan.isOk, Option.isNone_eq_false_iff, Option.isSome_iff_exists] at h
  obtain ⟨error, herror⟩ := h
  have hscan : (source.map LexedSource.ofText).model.scan.error = some error := herror
  have herr : (source.listing spans).err = error.diagnostic source.path source.model := by
    rw [listing, herror]
    rfl
  rw [diagnostic, hscan, Report.errText, herr]
  exact (Text.unlines_append _ _).trans (congrArg _ (Text.unlines_singleton ""))

end SourceUnit

/-- A source that is what its path is read to is listed. -/
theorem FileSystem.lexFile_of_readSource {files : FileSystem} {options : LoadOptions}
    {source : SourceUnit SourceText} (h : files.readSource options source.path = .ok source)
    (spans : Bool) : files.lexFile ⟨spans, options⟩ source.path = source.listing spans := by
  rw [lexFile, h, SourceUnit.listing]
  cases herror : source.model.scan.error <;> simp [Scan.isOk, herror]

/-! ## All sources -/

namespace Workspace

variable (workspace : Workspace SourceText)

/-- The sources that are scanned to an error. -/
def faulty : List (SourceUnit SourceText) :=
  workspace.sources.filter fun source => !source.model.scan.isOk

/-- Once all is scanned, the failures are the sources that are scanned to an error. -/
theorem failures_lex :
    workspace.lex.failures = workspace.faulty.map (SourceUnit.map LexedSource.ofText) := by
  rw [failures, lex, sources_map, List.filter_map]
  rfl

/-- Once all is scanned, the lexemes are counted source by source. -/
theorem lexemeCount_lex :
    workspace.lex.lexemeCount =
      (workspace.sources.map fun source => source.model.scan.lexemes.length).sum := by
  rw [lexemeCount, lex, sources_map, List.map_map, List.sum_eq_foldr]
  rfl

theorem sourceCount_lex : workspace.lex.sourceCount = workspace.sources.length := by
  rw [sourceCount_eq, lex, sources_map, List.length_map]

/-- What is said about all failures is what the listings of the faulty sources say, one after the
other and an empty line after each. -/
theorem unlines_failures (spans : Bool) :
    Text.unlines (workspace.lex.failures.flatMap SourceUnit.diagnostic) =
      String.join (workspace.faulty.map fun source => (source.listing spans).errText ++ "\n") := by
  rw [failures_lex, List.flatMap_map, Text.unlines_flatMap]
  refine congrArg String.join (List.map_congr_left fun source hsource => ?_)
  have hfaulty := (List.mem_filter.1 hsource).2
  rw [Bool.not_eq_true'] at hfaulty
  exact SourceUnit.unlines_diagnostic spans hfaulty

end Workspace

/-- The report on a whole says what the reports on its files say, which `run` gives path by path. It
is a success if each of them is. Its errors are those of the runs that fail, in the order of the
paths and with an empty line after each. Its one line counts the files, the lexemes that the
headings of the runs say they have, and the runs that fail. -/
structure Report.Gathers (report : Report) (paths : List Path) (run : Path → Report) : Prop where
  success_iff : report.success = true ↔ ∀ path ∈ paths, (run path).success = true
  errText_eq : report.errText =
    String.join ((paths.filter fun path => !(run path).success).map
      fun path => (run path).errText ++ "\n")
  outText_eq : ∃ counts : List Nat,
    List.Forall₂ (fun path count => (run path).out.head? = some (listingHeading path count))
      paths counts ∧
    report.outText =
      counted paths.length "source" ++ ", " ++ counted counts.sum "lexeme" ++ ", " ++
        counted (paths.filter fun path => !(run path).success).length "error" ++ "\n"

namespace FileSystem

variable {files : FileSystem} {options : LoadOptions} {root : Path}
  {workspace : Workspace SourceText}

theorem check_of_load (h : files.load options root = .ok workspace) :
    files.check options root =
      ⟨workspace.lex.failures.isEmpty, [workspace.lex.summary],
        workspace.lex.failures.flatMap SourceUnit.diagnostic⟩ := by
  rw [check, h]

/-- A source of a loaded workspace is listed. -/
theorem lexFile_of_load (h : files.load options root = .ok workspace) (spans : Bool)
    {source : SourceUnit SourceText} (hsource : source ∈ workspace.sources) :
    files.lexFile ⟨spans, options⟩ source.path = source.listing spans :=
  lexFile_of_readSource (readSource_of_mem_sources h hsource) spans

/-- The listings that fail are those of the faulty sources. -/
theorem filter_lexFile (h : files.load options root = .ok workspace) (spans : Bool) :
    ((workspace.sources.map SourceUnit.path).filter
        fun path => !(files.lexFile ⟨spans, options⟩ path).success) =
      workspace.faulty.map SourceUnit.path := by
  rw [List.filter_map]
  refine congrArg _ (List.filter_congr fun source hsource => ?_)
  rw [Function.comp_apply, lexFile_of_load h spans hsource]
  rfl

/-- **A check gathers the listings of the sources.** -/
theorem gathers_check (h : files.load options root = .ok workspace) (spans : Bool) :
    (files.check options root).Gathers (workspace.sources.map SourceUnit.path)
      (files.lexFile ⟨spans, options⟩) := by
  rw [check_of_load h]
  refine ⟨?_, ?_, ?_⟩
  · rw [List.isEmpty_iff, Workspace.failures_lex, List.map_eq_nil_iff, Workspace.faulty,
      List.filter_eq_nil_iff, List.forall_mem_map]
    refine forall₂_congr fun source hsource => ?_
    rw [lexFile_of_load h spans hsource, Bool.not_eq_true', Bool.not_eq_false]
    rfl
  · rw [filter_lexFile h, List.map_map, Report.errText, workspace.unlines_failures spans]
    refine congrArg String.join (List.map_congr_left fun source hsource => ?_)
    rw [Function.comp_apply, lexFile_of_load h spans (List.mem_filter.1 hsource).1]
  · refine ⟨workspace.sources.map fun source => source.model.scan.lexemes.length, ?_, ?_⟩
    · rw [List.forall₂_map_left_iff, List.forall₂_map_right_iff, List.forall₂_same]
      intro source hsource
      rw [lexFile_of_load h spans hsource]
      exact source.head?_out_listing spans
    · rw [filter_lexFile h, Report.outText, Text.unlines_singleton, Workspace.summary,
        Workspace.sourceCount_lex, Workspace.lexemeCount_lex, Workspace.failures_lex,
        List.length_map, List.length_map, List.length_map]

end FileSystem

/-- **Checking a workspace agrees with listing its sources.** Where the workspace can be loaded,
each of its sources, which stand in the order of their paths, is what its own path is read to, and
the check gathers what the listings of these paths report, with spans or without. Where it cannot,
the check fails with the error of loading and nothing else. -/
theorem check_agrees_with_lex (files : FileSystem) (options : LoadOptions) (root : Path) :
    (∀ workspace, files.load options root = .ok workspace →
      (workspace.sources.Pairwise fun a b => (a.path.order b.path).isLE = true) ∧
      (∀ source ∈ workspace.sources, files.readSource options source.path = .ok source) ∧
      ∀ spans, (files.check options root).Gathers (workspace.sources.map SourceUnit.path)
        (files.lexFile ⟨spans, options⟩)) ∧
    ∀ error, files.load options root = .error error →
      (files.check options root).success = false ∧ (files.check options root).outText = "" ∧
        (files.check options root).errText = "error: " ++ error.message ++ "\n" := by
  constructor
  · intro workspace h
    have htrans : Std.TransCmp fun a b : SourceUnit SourceText => a.path.order b.path :=
      transCmp_map SourceUnit.path
    exact ⟨pairwise_mergeSort _, fun _ hsource => FileSystem.readSource_of_mem_sources h hsource,
      FileSystem.gathers_check h⟩
  · intro error h
    have hcheck : files.check options root = ⟨false, [], error.diagnostic⟩ := by
      rw [FileSystem.check, h]
    rw [hcheck]
    exact ⟨rfl, rfl, Text.unlines_singleton _⟩

section OpenQuote

open LibraryTree

def q : FileName := .ofText ['q', '.', 't', 'r'] (by decide)

/-- A directory `w` with two sources, the second of which is a quote alone. -/
def openQuote : FileSystem :=
  Place.fileSystem ⟨[(w, .directory [(q, .file [0x62]), (x, .file [0x22])])], []⟩

/-- The name of the source `q.tr`. -/
def qName : UnitName := ⟨['q'], by decide⟩

/-- What is loaded at `w`. -/
def openQuoteWorkspace : Workspace SourceText where
  root := root
  packages := [
    (qName, .file ⟨root.join q, qName, ⟨['b']⟩⟩),
    (xName, .file ⟨root.join x, xName, ⟨['"']⟩⟩)]

/-- One of two sources has a lexeme, and the other an error. -/
theorem check_agrees_with_lex_open_quote :
    openQuote.load .standard root = .ok openQuoteWorkspace ∧
      (openQuote.check .standard root).Gathers [root.join q, root.join x]
        (openQuote.lexFile ⟨true, .standard⟩) := by
  have hload : openQuote.load .standard root = .ok openQuoteWorkspace := by cbv
  have hpaths : openQuoteWorkspace.sources.map SourceUnit.path = [root.join q, root.join x] := by
    cbv
  have hgathers := ((check_agrees_with_lex openQuote .standard root).1 _ hload).2.2 true
  rw [hpaths] at hgathers
  exact ⟨hload, hgathers⟩

end OpenQuote

end Lexis
