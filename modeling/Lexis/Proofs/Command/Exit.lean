import Mathlib
import Lexis.Command.Line
import Lexis.Proofs.Command.Agreement

/-!
# Exit status and what is said about errors

A run fails just if it says something about an error, and the cases in which it does are few: a file
that cannot be read, named or scanned, a workspace that cannot be loaded or has such a source, and a
command line that asks for nothing the program does.

- `Command.Asks`: how a command line is read; `Command.asks_iff`: it is read in no other way.
- `Report.FailsWith`: a report that is a failure just in one case, and then begins with an error.
- `FileSystem.failsWith_lexFile`, `FileSystem.failsWith_check`: listing a file, and checking a
  workspace.
- `exit_status_agrees`: every run of the program.
-/

namespace Lexis

/-! ## Command lines -/

namespace Command

/-- The arguments have a path, and this is the first: all that stands before it are flags. -/
def IsFirstPath (arguments : List String) (argument : String) : Prop :=
  isFlag argument = false ∧
    ∃ flags more, arguments = flags ++ argument :: more ∧ ∀ flag ∈ flags, isFlag flag = true

/-- The extension of sources that the arguments set: what the last of the flags that set one says,
and the standard one where none does. -/
inductive SetsExtension : List String → List Char → Prop
  | standard {arguments : List String}
      (h : ∀ argument ∈ arguments, ¬extensionFlag <+: argument.toList) :
      SetsExtension arguments LoadOptions.standard.extension
  | last {before after : List String} {argument : String} {extension : List Char}
      (h : argument.toList = extensionFlag ++ extension)
      (hafter : ∀ other ∈ after, ¬extensionFlag <+: other.toList) :
      SetsExtension (before ++ argument :: after) extension

/-- The first arguments that are no paths. -/
def names : List String :=
  ["lex", "check", "help", "--help", "-h", "version", "--version", "-V"]

/-- How a command line is read. -/
inductive Asks : List String → Command → Prop
  | nothing : Asks [] usage
  | help {name : String} {arguments : List String} (h : name ∈ ["help", "--help", "-h"]) :
      Asks (name :: arguments) usage
  | version {name : String} {arguments : List String} (h : name ∈ ["version", "--version", "-V"]) :
      Asks (name :: arguments) version
  | lex {arguments : List String} {argument : String} (h : IsFirstPath arguments argument) :
      Asks ("lex" :: arguments)
        (lex ⟨decide ("--spans" ∈ arguments ∨ "-s" ∈ arguments),
          ⟨LoadOptions.standard.extension, decide ("--keep-crlf" ∉ arguments)⟩⟩
          (Path.ofText argument.toList))
  | lexNothing {arguments : List String} (h : ∀ argument ∈ arguments, isFlag argument = true) :
      Asks ("lex" :: arguments) lexNothing
  | check {arguments : List String} {argument : String} {extension : List Char}
      (hextension : SetsExtension arguments extension) (h : IsFirstPath arguments argument) :
      Asks ("check" :: arguments)
        (check ⟨extension, decide ("--keep-crlf" ∉ arguments)⟩ (Path.ofText argument.toList))
  | checkHere {arguments : List String} {extension : List Char}
      (hextension : SetsExtension arguments extension)
      (h : ∀ argument ∈ arguments, isFlag argument = true) :
      Asks ("check" :: arguments)
        (check ⟨extension, decide ("--keep-crlf" ∉ arguments)⟩ (Path.ofText ['.']))
  | shorthand {name : String} {arguments : List String} (hname : name ∉ names)
      (hsource : isSourcePath (Path.ofText name.toList) = true) :
      Asks (name :: arguments) (Command.lex LexOptions.standard (Path.ofText name.toList))
  | unknown {name : String} {arguments : List String} (hname : name ∉ names)
      (hsource : isSourcePath (Path.ofText name.toList) = false) :
      Asks (name :: arguments) (unknown name)

variable {arguments : List String} {argument name : String} {command : Command}

theorem firstPath?_eq_none_iff :
    firstPath? arguments = none ↔ ∀ argument ∈ arguments, isFlag argument = true := by
  unfold firstPath?
  rw [Option.map_eq_none_iff, List.find?_eq_none]
  simp only [Bool.not_eq_true', Bool.not_eq_false]

theorem IsFirstPath.firstPath?_eq (h : IsFirstPath arguments argument) :
    firstPath? arguments = some (Path.ofText argument.toList) := by
  obtain ⟨hargument, flags, more, rfl, hflags⟩ := h
  unfold firstPath?
  rw [List.find?_eq_some_iff_append.2 ⟨by rw [hargument]; rfl, flags, more, rfl, ?_⟩]
  · rfl
  · intro flag hflag
    rw [hflags flag hflag]
    rfl

theorem exists_isFirstPath {path : Path} (h : firstPath? arguments = some path) :
    ∃ argument, IsFirstPath arguments argument ∧ path = Path.ofText argument.toList := by
  unfold firstPath? at h
  obtain ⟨argument, hfind, rfl⟩ := Option.map_eq_some_iff.1 h
  obtain ⟨hargument, flags, more, harguments, hflags⟩ := List.find?_eq_some_iff_append.1 hfind
  refine ⟨argument, ⟨by simpa using hargument, flags, more, harguments, fun flag hflag => ?_⟩, rfl⟩
  simpa using hflags flag hflag

theorem normalizes_eq (arguments : List String) :
    normalizes arguments = decide ("--keep-crlf" ∉ arguments) := by
  unfold normalizes
  rw [List.contains_eq_mem, decide_not]

theorem extensionOf?_eq_none_iff :
    extensionOf? argument = none ↔ ¬extensionFlag <+: argument.toList := by
  unfold extensionOf?
  rw [← List.isPrefixOf_iff_prefix]
  by_cases h : extensionFlag.isPrefixOf argument.toList = true
  · rw [if_pos h]
    exact iff_of_false (Option.some_ne_none _) (not_not_intro h)
  · rw [if_neg h]
    exact iff_of_true rfl h

theorem extensionOf?_eq_some_iff {extension : List Char} :
    extensionOf? argument = some extension ↔ argument.toList = extensionFlag ++ extension := by
  unfold extensionOf?
  constructor
  · intro h
    split at h
    next hprefix =>
      obtain ⟨rest, hrest⟩ := List.isPrefixOf_iff_prefix.1 hprefix
      rw [← hrest, List.drop_left, Option.some.injEq] at h
      rw [← hrest, h]
    · cases h
  · intro h
    rw [h, if_pos (List.isPrefixOf_iff_prefix.2 (List.prefix_append _ _)), List.drop_left]

/-- The flags that set an extension, and the last of them. -/
theorem SetsExtension.getLastD_eq {extension : List Char} (h : SetsExtension arguments extension) :
    (arguments.filterMap extensionOf?).getLastD LoadOptions.standard.extension = extension := by
  cases h with
  | standard h =>
    have hnone : arguments.filterMap extensionOf? = [] :=
      List.filterMap_eq_nil_iff.2 fun argument hargument =>
        extensionOf?_eq_none_iff.2 (h argument hargument)
    rw [hnone]
    rfl
  | @last before after argument extension h hafter =>
    have hnone : after.filterMap extensionOf? = [] :=
      List.filterMap_eq_nil_iff.2 fun other hother =>
        extensionOf?_eq_none_iff.2 (hafter other hother)
    rw [List.filterMap_append, List.filterMap_cons_some (extensionOf?_eq_some_iff.2 h), hnone,
      List.getLastD_eq_getLast?, List.getLast?_append]
    rfl

theorem exists_setsExtension (arguments : List String) :
    ∃ extension, SetsExtension arguments extension := by
  induction arguments with
  | nil => exact ⟨_, .standard fun _ h => by cases h⟩
  | cons argument arguments ih =>
    obtain ⟨extension, hextension⟩ := ih
    cases hextension with
    | standard h =>
      by_cases hflag : extensionFlag <+: argument.toList
      · obtain ⟨extension, hrest⟩ := hflag
        refine ⟨extension, ?_⟩
        show SetsExtension ([] ++ argument :: arguments) extension
        exact .last hrest.symm h
      · exact ⟨_, .standard (List.forall_mem_cons.2 ⟨hflag, h⟩)⟩
    | @last before after other _ h hafter =>
      refine ⟨extension, ?_⟩
      show SetsExtension ((argument :: before) ++ other :: after) extension
      exact .last h hafter

theorem IsFirstPath.ofLexArguments_eq (h : IsFirstPath arguments argument) :
    ofLexArguments arguments = lex ⟨decide ("--spans" ∈ arguments ∨ "-s" ∈ arguments),
      ⟨LoadOptions.standard.extension, decide ("--keep-crlf" ∉ arguments)⟩⟩
      (Path.ofText argument.toList) := by
  have hspans : (arguments.any fun argument => argument == "--spans" || argument == "-s")
      = decide ("--spans" ∈ arguments ∨ "-s" ∈ arguments) := by
    rw [Bool.eq_iff_iff]
    simp [List.any_eq_true, exists_or, and_or_left]
  unfold ofLexArguments
  rw [h.firstPath?_eq, normalizes_eq, hspans]

theorem ofLexArguments_of_flags (h : ∀ argument ∈ arguments, isFlag argument = true) :
    ofLexArguments arguments = lexNothing := by
  unfold ofLexArguments
  rw [firstPath?_eq_none_iff.2 h]

theorem SetsExtension.ofCheckArguments_eq {extension : List Char}
    (h : SetsExtension arguments extension) :
    ofCheckArguments arguments = check ⟨extension, decide ("--keep-crlf" ∉ arguments)⟩
      ((firstPath? arguments).getD (Path.ofText ['.'])) := by
  unfold ofCheckArguments
  rw [h.getLastD_eq, normalizes_eq]

theorem asks_lex (arguments : List String) :
    Asks ("lex" :: arguments) (ofLexArguments arguments) := by
  cases hpath : firstPath? arguments with
  | none =>
    have hflags := firstPath?_eq_none_iff.1 hpath
    rw [ofLexArguments_of_flags hflags]
    exact .lexNothing hflags
  | some path =>
    obtain ⟨argument, hargument, -⟩ := exists_isFirstPath hpath
    rw [hargument.ofLexArguments_eq]
    exact .lex hargument

theorem asks_check (arguments : List String) :
    Asks ("check" :: arguments) (ofCheckArguments arguments) := by
  obtain ⟨extension, hextension⟩ := exists_setsExtension arguments
  rw [hextension.ofCheckArguments_eq]
  cases hpath : firstPath? arguments with
  | none => exact .checkHere hextension (firstPath?_eq_none_iff.1 hpath)
  | some path =>
    obtain ⟨argument, hargument, rfl⟩ := exists_isFirstPath hpath
    exact .check hextension hargument

/-- What is no name of a command is a path or unknown. -/
theorem ofArguments_of_not_mem_names (h : name ∉ names) :
    ofArguments (name :: arguments) =
      if isSourcePath (Path.ofText name.toList) = true then
        lex LexOptions.standard (Path.ofText name.toList)
      else unknown name := by
  simp only [names, List.mem_cons, List.not_mem_nil, or_false, not_or] at h
  obtain ⟨hlex, hcheck, hhelp, hhelpFlag, hhelpLetter, hversion, hversionFlag, hversionLetter⟩ := h
  rw [ofArguments, if_neg hlex, if_neg hcheck, if_neg, if_neg]
  · exact not_or.2 ⟨hversion, not_or.2 ⟨hversionFlag, hversionLetter⟩⟩
  · exact not_or.2 ⟨hhelp, not_or.2 ⟨hhelpFlag, hhelpLetter⟩⟩

/-- Every command line is read in one of the ways, and so as the program reads it. -/
theorem asks_ofArguments (arguments : List String) : Asks arguments (ofArguments arguments) := by
  cases arguments with
  | nil => exact .nothing
  | cons name arguments =>
    by_cases hname : name ∈ names
    · simp only [names, List.mem_cons, List.not_mem_nil, or_false] at hname
      rcases hname with rfl | rfl | rfl | rfl | rfl | rfl | rfl | rfl
      · exact asks_lex arguments
      · exact asks_check arguments
      all_goals
        first
          | exact .help (by decide)
          | exact .version (by decide)
    · rw [ofArguments_of_not_mem_names hname]
      by_cases hsource : isSourcePath (Path.ofText name.toList) = true
      · rw [if_pos hsource]
        exact .shorthand hname hsource
      · rw [if_neg hsource]
        exact .unknown hname (Bool.eq_false_iff.2 hsource)

/-- Arguments are read in no two ways. -/
theorem Asks.ofArguments_eq (h : Asks arguments command) : ofArguments arguments = command := by
  cases h with
  | nothing => rfl
  | help h =>
    simp only [List.mem_cons, List.not_mem_nil, or_false] at h
    rcases h with rfl | rfl | rfl <;> rfl
  | version h =>
    simp only [List.mem_cons, List.not_mem_nil, or_false] at h
    rcases h with rfl | rfl | rfl <;> rfl
  | lex h => exact h.ofLexArguments_eq
  | lexNothing h => exact ofLexArguments_of_flags h
  | check hextension h =>
    show ofCheckArguments _ = _
    rw [hextension.ofCheckArguments_eq, h.firstPath?_eq]
    rfl
  | checkHere hextension h =>
    show ofCheckArguments _ = _
    rw [hextension.ofCheckArguments_eq, firstPath?_eq_none_iff.2 h]
    rfl
  | shorthand hname hsource => rw [ofArguments_of_not_mem_names hname, if_pos hsource]
  | unknown hname hsource =>
    rw [ofArguments_of_not_mem_names hname, if_neg (Bool.eq_false_iff.1 hsource)]

/-- **How a command line is read**: in one of the ways there are, and in that alone. -/
theorem asks_iff : Asks arguments command ↔ ofArguments arguments = command := by
  constructor
  · exact Asks.ofArguments_eq
  · rintro rfl
    exact asks_ofArguments arguments

end Command

/-! ## Reports -/

namespace Report

variable {report : Report}

theorem status_eq_zero_iff : report.status = 0 ↔ report.success = true := by
  unfold status
  cases report.success <;> decide

theorem status_eq_one_iff : report.status = 1 ↔ report.success = false := by
  unfold status
  cases report.success <;> decide

/-- Every line is written with its end, so that no line is lost among those about errors. -/
theorem errText_eq_empty_iff : report.errText = "" ↔ report.err = [] := by
  unfold errText
  cases report.err with
  | nil => exact iff_of_true rfl rfl
  | cons line rest =>
    refine iff_of_false (fun h => ?_) (List.cons_ne_nil _ _)
    have hlength := congrArg String.length h
    rw [Text.unlines, List.map_cons, String.join_cons, String.length_append,
      String.length_append] at hlength
    have hnewline : "\n".length = 1 := rfl
    have hempty : "".length = 0 := rfl
    omega

/-- A report is a failure just in one case. Then what it says about errors begins with one, and else
it says nothing about errors. -/
structure FailsWith (report : Report) (fault : Prop) : Prop where
  status_iff : report.status = 1 ↔ fault
  begins : fault → ∃ more, report.errText = "error: " ++ more
  silent : ¬fault → report.errText = ""

variable {fault : Prop}

theorem failsWith_of_success (hsuccess : report.success = true) (herr : report.err = [])
    (hfault : ¬fault) : report.FailsWith fault := by
  refine ⟨iff_of_false (fun h => ?_) hfault, fun h => absurd h hfault, fun _ => ?_⟩
  · rw [status_eq_one_iff, hsuccess] at h
    cases h
  · exact errText_eq_empty_iff.2 herr

theorem failsWith_of_failure {message : String} {rest : List String}
    (hsuccess : report.success = false) (herr : report.err = ("error: " ++ message) :: rest)
    (hfault : fault) : report.FailsWith fault := by
  refine ⟨iff_of_true (status_eq_one_iff.2 hsuccess) hfault, fun _ => ?_, fun h => absurd hfault h⟩
  refine ⟨message ++ "\n" ++ Text.unlines rest, ?_⟩
  rw [errText, herr, Text.unlines, List.map_cons, String.join_cons, String.append_assoc,
    String.append_assoc, String.append_assoc]
  rfl

theorem FailsWith.success_iff (h : report.FailsWith fault) :
    report.success = true ↔ report.err = [] := by
  rw [← status_eq_zero_iff, ← errText_eq_empty_iff]
  have hstatus : report.status = 0 ↔ ¬report.status = 1 := by
    rw [status_eq_zero_iff, status_eq_one_iff, Bool.not_eq_false]
  rw [hstatus, h.status_iff]
  constructor
  · exact h.silent
  · intro hempty hfault
    obtain ⟨more, hmore⟩ := h.begins hfault
    have hlength := congrArg String.length (hmore.symm.trans hempty)
    have herror : "error: ".length = 7 := rfl
    have hnone : "".length = 0 := rfl
    rw [String.length_append] at hlength
    omega

end Report

/-! ## Runs -/

/-- What is wrong with a file that cannot be listed to its end: it cannot be read or named, or its
scan meets an error. -/
def FileSystem.ListingFails (files : FileSystem) (options : LexOptions) (path : Path) : Prop :=
  (∃ error, files.readSource options.load path = .error error) ∨
    ∃ source error, files.readSource options.load path = .ok source ∧
      source.model.scan.error = some error

/-- What is wrong with a workspace that is not in order: it cannot be loaded, or the scan of a
source in it meets an error. -/
def FileSystem.CheckFails (files : FileSystem) (options : LoadOptions) (root : Path) : Prop :=
  (∃ error, files.load options root = .error error) ∨
    ∃ workspace source error, files.load options root = .ok workspace ∧
      source ∈ workspace.sources ∧ source.model.scan.error = some error

/-- What is said about a source with an error begins with that error. -/
theorem SourceUnit.diagnostic_eq {source : SourceUnit LexedSource} {error : ScanError}
    (h : source.model.scan.error = some error) :
    ∃ rest, source.diagnostic = ("error: " ++ error.message) :: rest := by
  unfold SourceUnit.diagnostic
  rw [h]
  exact ⟨_, rfl⟩

theorem Workspace.mem_faulty_iff {workspace : Workspace SourceText}
    {source : SourceUnit SourceText} :
    source ∈ workspace.faulty ↔
      source ∈ workspace.sources ∧ ∃ error, source.model.scan.error = some error := by
  unfold faulty Scan.isOk
  rw [List.mem_filter, Option.not_isNone, Option.isSome_iff_exists]

namespace FileSystem

variable (files : FileSystem)

/-- **Listing a file fails** just if the file cannot be read, named or scanned. -/
theorem failsWith_lexFile (options : LexOptions) (path : Path) :
    (files.lexFile options path).FailsWith (files.ListingFails options path) := by
  unfold lexFile
  cases hread : files.readSource options.load path with
  | error error => exact Report.failsWith_of_failure rfl rfl (.inl ⟨error, hread⟩)
  | ok source =>
    cases hscan : source.model.scan.error with
    | some error =>
      simp only [hscan]
      exact Report.failsWith_of_failure rfl rfl (.inr ⟨source, error, hread, hscan⟩)
    | none =>
      simp only [hscan]
      refine Report.failsWith_of_success rfl rfl ?_
      rintro (⟨error, herror⟩ | ⟨other, error, hother, herror⟩)
      · rw [hread] at herror
        cases herror
      · rw [hread, Except.ok.injEq] at hother
        rw [← hother, hscan] at herror
        cases herror

/-- **Checking a workspace fails** just if it cannot be loaded or has a source that cannot be
scanned. -/
theorem failsWith_check (options : LoadOptions) (root : Path) :
    (files.check options root).FailsWith (files.CheckFails options root) := by
  cases hload : files.load options root with
  -- the workspace cannot be loaded
  | error error =>
    unfold check
    rw [hload]
    exact Report.failsWith_of_failure rfl rfl (.inl ⟨error, hload⟩)
  | ok workspace =>
    rw [check_of_load hload, workspace.failures_lex]
    cases hfaulty : workspace.faulty with
    -- no source has an error
    | nil =>
      refine Report.failsWith_of_success rfl rfl ?_
      rintro (⟨error, herror⟩ | ⟨other, source, error, hother, hsource, herror⟩)
      · rw [hload] at herror
        cases herror
      · rw [hload, Except.ok.injEq] at hother
        rw [← hother] at hsource
        have hmem := Workspace.mem_faulty_iff.2 ⟨hsource, error, herror⟩
        rw [hfaulty] at hmem
        cases hmem
    -- what is said begins with the error of the first source that has one
    | cons source rest =>
      have hmem : source ∈ workspace.faulty := by
        rw [hfaulty]
        exact List.mem_cons_self
      obtain ⟨hsource, error, herror⟩ := Workspace.mem_faulty_iff.1 hmem
      have hlexed : (source.map LexedSource.ofText).model.scan.error = some error := herror
      obtain ⟨more, hmore⟩ := SourceUnit.diagnostic_eq hlexed
      have herr : ((source :: rest).map (SourceUnit.map LexedSource.ofText)).flatMap
          SourceUnit.diagnostic = ("error: " ++ error.message) :: (more ++
            (rest.map (SourceUnit.map LexedSource.ofText)).flatMap SourceUnit.diagnostic) := by
        rw [List.map_cons, List.flatMap_cons, hmore, List.cons_append]
      exact Report.failsWith_of_failure rfl herr
        (.inr ⟨workspace, source, error, hload, hsource, herror⟩)

/-- Every command is a success just if it says nothing about errors. -/
theorem success_iff_run (command : Command) :
    (command.run files).success = true ↔ (command.run files).err = [] := by
  cases command with
  | usage => exact iff_of_true rfl rfl
  | version => exact iff_of_true rfl rfl
  | lex options path => exact (files.failsWith_lexFile options path).success_iff
  | lexNothing => exact iff_of_false Bool.false_ne_true (List.cons_ne_nil _ _)
  | check options root => exact (files.failsWith_check options root).success_iff
  | unknown name => exact iff_of_false Bool.false_ne_true (List.cons_ne_nil _ _)

end FileSystem

/-- **Exit status and what is said about errors agree.** Every run ends with status zero or one, and
with zero just if it says nothing about errors. A run that lists a file, whether the arguments name
the command or the file alone, ends with one just if the file cannot be read, named or scanned; a
run that checks a workspace does so just if that cannot be loaded or has a source that cannot be
scanned. In each of these cases what is said begins with an error. -/
theorem exit_status_agrees (files : FileSystem) (arguments : List String) :
    let report := (Command.ofArguments arguments).run files
    (report.status = 0 ∨ report.status = 1) ∧ (report.status = 0 ↔ report.errText = "") ∧
      (∀ options path, Command.Asks arguments (.lex options path) →
        report.FailsWith (files.ListingFails options path)) ∧
      ∀ options root, Command.Asks arguments (.check options root) →
        report.FailsWith (files.CheckFails options root) := by
  intro report
  refine ⟨?_, ?_, fun options path hasks => ?_, fun options root hasks => ?_⟩
  · rw [Report.status_eq_zero_iff, Report.status_eq_one_iff]
    exact (Bool.eq_false_or_eq_true report.success)
  · rw [Report.status_eq_zero_iff, Report.errText_eq_empty_iff]
    exact files.success_iff_run (Command.ofArguments arguments)
  · show ((Command.ofArguments arguments).run files).FailsWith _
    rw [Command.asks_iff.1 hasks]
    exact files.failsWith_lexFile options path
  · show ((Command.ofArguments arguments).run files).FailsWith _
    rw [Command.asks_iff.1 hasks]
    exact files.failsWith_check options root

section OpenQuote

open LibraryTree

/-- A check of the directory with an open quote fails, and so does a listing of the source that has
it. -/
theorem exit_status_agrees_open_quote :
    ((Command.ofArguments ["check", "-q", "w"]).run openQuote).FailsWith
        (openQuote.CheckFails .standard root) ∧
      openQuote.CheckFails .standard root ∧
      ((Command.ofArguments ["w/x.tr"]).run openQuote).FailsWith
        (openQuote.ListingFails .standard (root.join x)) ∧
      openQuote.ListingFails .standard (root.join x) := by
  have hscan : (SourceText.scan ⟨['"']⟩).error.isSome = true := by decide +kernel
  obtain ⟨error, herror⟩ := Option.isSome_iff_exists.1 hscan
  have hload : openQuote.load .standard root = .ok openQuoteWorkspace := by cbv
  have hsource : ⟨root.join x, xName, ⟨['"']⟩⟩ ∈ openQuoteWorkspace.sources :=
    List.mem_mergeSort.2 (.tail _ (.head _))
  have hread := FileSystem.readSource_of_mem_sources hload hsource
  have hcheck : Command.Asks ["check", "-q", "w"] (.check .standard root) :=
    .check (.standard (by decide)) ⟨by decide, ["-q"], [], rfl, by decide⟩
  have hlist : Command.Asks ["w/x.tr"] (.lex .standard (root.join x)) :=
    .shorthand (by decide) (by decide)
  exact ⟨(exit_status_agrees openQuote _).2.2.2 _ _ hcheck,
    .inr ⟨_, _, error, hload, hsource, herror⟩,
    (exit_status_agrees openQuote _).2.2.1 _ _ hlist, .inr ⟨_, error, hread, herror⟩⟩

end OpenQuote

end Lexis
