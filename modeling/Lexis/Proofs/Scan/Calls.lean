import Lexis.Proofs.Scan.Restart

/-!
# Calls to a scanner

A scanner is asked for what comes next in two ways: `nextLexeme` goes on past errors, and `next` has
nothing more to say once it has come upon one. The calls may come in any order. All that one call
can do is said once, and what holds of every run of calls follows from it.

- `Cursor.Steps`: what an event says of the cursors before and after it.
- `Scanner.Call`, `Scanner.answers`, `Scanner.afterCalls`: calls one after another.
- `Scanner.call_cases`, `Scanner.steps_call`, `Scanner.failed_call_iff`: one call.
- `Scanner.length_answers_le`, `Scanner.bounds_answers`, `Scanner.pairwise_answers`,
  `Scanner.exists_events_eq`, `Scanner.failed_afterCalls_iff`: runs of calls.
- `Scanner.Yields`: what calling `next` until the end yields.
- `calls_make_progress_in_order`: all of it together.
-/

namespace Lexis

/-! ## One event -/

namespace Cursor

/-- What an event says of the cursor before it and the cursor after it. -/
inductive Steps (cursor : Cursor) : Scanner.Event → Cursor → Prop
  | finished {after : Cursor} (hle : cursor.position ≤ after.position) :
    Steps cursor .finished after
  | lexeme {lexeme : Lexeme} {after : Cursor}
    (hfirst : cursor.position ≤ lexeme.span.first.offset)
    (hlt : lexeme.span.first.offset < lexeme.span.last.offset)
    (hlast : lexeme.span.last = after.location) : Steps cursor (.lexeme lexeme) after
  | error {error : ScanError} {after : Cursor} (hlt : cursor.position < after.position) :
    Steps cursor (.error error) after

variable {cursor middle after : Cursor} {event : Scanner.Event} {piece : Piece}

/-- Whatever piece is ahead, a fault too, passing over it moves on. -/
theorem position_lt_skip (h : cursor.piece? = some piece) :
    cursor.position < (cursor.skip piece.length).position := by
  have hlen := length_rest_skip_lt h
  have hsum := cursor.position_add_length_skip piece.length
  omega

theorem Steps.position_le (h : cursor.Steps event after) : cursor.position ≤ after.position := by
  cases h with
  | finished hle => exact hle
  | lexeme hfirst hlt hlast =>
    rw [hlast] at hlt
    exact hfirst.trans (Nat.le_of_lt hlt)
  | error hlt => exact Nat.le_of_lt hlt

/-- Whatever is come upon before the end of the text, the cursor moves on. -/
theorem Steps.position_lt (h : cursor.Steps event after) (hevent : event ≠ .finished) :
    cursor.position < after.position := by
  cases h with
  | finished hle => exact absurd rfl hevent
  | lexeme hfirst hlt hlast =>
    rw [hlast] at hlt
    exact hfirst.trans_lt hlt
  | error hlt => exact hlt

/-- What an event says of the cursor before it, it says of every cursor further back. -/
theorem Steps.of_le (h : middle.Steps event after) (hle : cursor.position ≤ middle.position) :
    cursor.Steps event after := by
  cases h with
  | finished hle' => exact .finished (hle.trans hle')
  | lexeme hfirst hlt hlast => exact .lexeme (hle.trans hfirst) hlt hlast
  | error hlt => exact .error (hle.trans_lt hlt)

/-- **The next event is the end of the text, or it moves the cursor on.** -/
theorem steps_nextEvent (cursor : Cursor) :
    cursor.Steps cursor.nextEvent.1 cursor.nextEvent.2 := by
  induction cursor using reading with
  | finished cursor hread =>
    rw [nextEvent_of_finished hread]
    exact .finished (Nat.le_refl _)
  | gap cursor text hread ih =>
    rw [nextEvent_of_gap hread]
    exact ih.of_le (cursor.position_le_skip _)
  | token cursor kind text hread ih =>
    rw [nextEvent_of_token hread]
    exact .lexeme (Nat.le_refl _) (position_lt_skip (piece?_eq_token_iff.2 hread)) rfl
  | fault cursor cause place taken hread =>
    rw [nextEvent_of_fault hread]
    exact .error (position_lt_skip hread)

/-- Nothing is left where the next event is the end of the text. -/
theorem rest_nextEvent (h : cursor.nextEvent.1 = .finished) : cursor.nextEvent.2.rest = [] := by
  induction cursor using reading with
  | finished cursor hread =>
    rw [nextEvent_of_finished hread]
    exact Piece.read?_eq_none_iff.1 hread
  | gap cursor text hread ih =>
    rw [nextEvent_of_gap hread] at h ⊢
    exact ih h
  | token cursor kind text hread ih =>
    rw [nextEvent_of_token hread] at h
    exact absurd h (by simp)
  | fault cursor cause place taken hread =>
    rw [nextEvent_of_fault hread] at h
    exact absurd h (by simp)

end Cursor

namespace Scanner

/-! ## Calls -/

/-- The two ways to ask a scanner for what comes next. -/
inductive Call where
  | next
  | nextLexeme
  deriving DecidableEq, Repr

/-- One call. -/
def call (scanner : Scanner) : Call → Event × Scanner
  | .next => scanner.next
  | .nextLexeme => scanner.nextLexeme

/-- What a scanner answers to calls one after another. -/
def answers (scanner : Scanner) : List Call → List Event
  | [] => []
  | call :: calls => (scanner.call call).1 :: (scanner.call call).2.answers calls

/-- The scanner after calls. -/
def afterCalls (scanner : Scanner) : List Call → Scanner
  | [] => scanner
  | call :: calls => (scanner.call call).2.afterCalls calls

namespace Event

/-- Whether the event is an error. -/
def isError : Event → Bool
  | error _ => true
  | _ => false

/-- The lexeme that was come upon, if it was one. -/
def lexeme? : Event → Option Lexeme
  | lexeme found => some found
  | _ => none

theorem lexeme?_eq_some_iff {event : Event} {found : Lexeme} :
    event.lexeme? = some found ↔ event = lexeme found := by
  cases event <;> simp [lexeme?]

theorem exists_of_isError {event : Event} (h : event.isError = true) :
    ∃ found, event = error found := by
  cases event with
  | error found => exact ⟨found, rfl⟩
  | _ => exact absurd h (by simp [isError])

end Event

variable {scanner : Scanner} {source : SourceText} {call : Call} {calls : List Call}

/-! ## One call -/

theorem next_of_failed (h : scanner.failed = true) : scanner.next = (.finished, scanner) := by
  rw [next, if_pos h]

theorem next_of_not_failed (h : scanner.failed = false) :
    scanner.next = (scanner.cursor.nextEvent.1,
      ⟨scanner.cursor.nextEvent.2, scanner.cursor.nextEvent.1.isError⟩) := by
  rw [next, if_neg (by rw [h]; decide), nextLexeme]
  generalize scanner.cursor.nextEvent = found
  obtain ⟨event, cursor⟩ := found
  cases event with
  | error error => rfl
  | _ =>
    rw [h]
    rfl

/-- All that a call can do: answer that nothing comes next and leave the scanner alone, or answer
with the next event. -/
theorem call_cases (scanner : Scanner) (call : Call) :
    scanner.call call = (.finished, scanner) ∨ ∃ failed,
      scanner.call call = (scanner.cursor.nextEvent.1, ⟨scanner.cursor.nextEvent.2, failed⟩) := by
  cases call with
  | next =>
    cases hfailed : scanner.failed with
    | true => exact .inl (next_of_failed hfailed)
    | false => exact .inr ⟨_, next_of_not_failed hfailed⟩
  | nextLexeme => exact .inr ⟨scanner.failed, rfl⟩

/-- A call moves the cursor forwards. -/
theorem exists_call_eq_skip (scanner : Scanner) (call : Call) :
    ∃ n, (scanner.call call).2.cursor = scanner.cursor.skip n := by
  rcases scanner.call_cases call with hidle | ⟨failed, hevent⟩
  · rw [hidle]
    exact ⟨0, rfl⟩
  · rw [hevent]
    exact scanner.cursor.exists_nextEvent_eq_skip

/-- **One call answers that nothing comes next, or it moves the cursor on.** -/
theorem steps_call (scanner : Scanner) (call : Call) :
    scanner.cursor.Steps (scanner.call call).1 (scanner.call call).2.cursor := by
  rcases scanner.call_cases call with hidle | ⟨failed, hevent⟩
  · rw [hidle]
    exact .finished (Nat.le_refl _)
  · rw [hevent]
    exact scanner.cursor.steps_nextEvent

/-- **Only an error that `next` comes upon makes a scanner fail**, and nothing makes up for it. -/
theorem failed_call_iff :
    (scanner.call call).2.failed = true ↔
      scanner.failed = true ∨ (call = .next ∧ scanner.next.1.isError = true) := by
  cases call with
  | next =>
    rw [Scanner.call]
    cases hfailed : scanner.failed with
    | true => simp [next_of_failed hfailed, hfailed]
    | false => simp [next_of_not_failed hfailed]
  | nextLexeme => simp [Scanner.call, nextLexeme]

/-! ## Runs of calls -/

theorem standsIn_afterCalls (h : scanner.cursor.StandsIn source) (calls : List Call) :
    (scanner.afterCalls calls).cursor.StandsIn source := by
  induction calls generalizing scanner with
  | nil => exact h
  | cons call calls ih =>
    refine ih ?_
    obtain ⟨n, hn⟩ := scanner.exists_call_eq_skip call
    rw [hn]
    exact h.skip n

theorem position_le_afterCalls (scanner : Scanner) (calls : List Call) :
    scanner.cursor.position ≤ (scanner.afterCalls calls).cursor.position := by
  induction calls generalizing scanner with
  | nil => exact Nat.le_refl _
  | cons call calls ih =>
    exact (scanner.steps_call call).position_le.trans (ih (scanner.call call).2)

/-- **Every lexeme and every error is paid for with a codepoint.** -/
theorem length_answers_le (scanner : Scanner) (calls : List Call) :
    ((scanner.answers calls).filter (· ≠ .finished)).length + scanner.cursor.position ≤
      (scanner.afterCalls calls).cursor.position := by
  induction calls generalizing scanner with
  | nil => exact (Nat.zero_add _).le
  | cons call calls ih =>
    have hsteps := scanner.steps_call call
    have hle := hsteps.position_le
    have hrest := ih (scanner.call call).2
    rw [answers, afterCalls]
    by_cases hfinished : (scanner.call call).1 = .finished
    · rw [List.filter_cons_of_neg (by simpa using hfinished)]
      omega
    · have hlt : scanner.cursor.position < (scanner.call call).2.cursor.position :=
        hsteps.position_lt hfinished
      rw [List.filter_cons_of_pos (by simpa using hfinished), List.length_cons]
      omega

/-- The lexemes that calls are answered with have text, and lie between where the scanner was before
and where it is after. -/
theorem bounds_answers (scanner : Scanner) (calls : List Call) :
    ∀ lexeme ∈ (scanner.answers calls).filterMap Event.lexeme?,
      scanner.cursor.position ≤ lexeme.span.first.offset ∧
      lexeme.span.first.offset < lexeme.span.last.offset ∧
      lexeme.span.last.offset ≤ (scanner.afterCalls calls).cursor.position := by
  induction calls generalizing scanner with
  | nil => exact fun lexeme hlexeme => absurd hlexeme List.not_mem_nil
  | cons call calls ih =>
    intro lexeme hlexeme
    have hsteps := scanner.steps_call call
    obtain ⟨event, hmem, hevent⟩ := List.mem_filterMap.1 hlexeme
    rcases List.mem_cons.1 hmem with rfl | hmem
    · -- the lexeme is the answer to this call, and later calls only move forwards
      rw [Event.lexeme?_eq_some_iff.1 hevent] at hsteps
      cases hsteps with
      | lexeme hfirst hlt hlast =>
        refine ⟨hfirst, hlt, ?_⟩
        rw [hlast]
        exact (scanner.call call).2.position_le_afterCalls calls
    · obtain ⟨hfirst, hbounds⟩ := ih _ lexeme (List.mem_filterMap.2 ⟨event, hmem, hevent⟩)
      exact ⟨hsteps.position_le.trans hfirst, hbounds⟩

/-- **The lexemes that calls are answered with lie one after another**, whichever calls they answer
and whatever errors are between them. -/
theorem pairwise_answers (scanner : Scanner) (calls : List Call) :
    ((scanner.answers calls).filterMap Event.lexeme?).Pairwise fun a b =>
      a.span.last.offset ≤ b.span.first.offset := by
  induction calls generalizing scanner with
  | nil => exact .nil
  | cons call calls ih =>
    have hsteps := scanner.steps_call call
    rw [answers]
    cases hevent : (scanner.call call).1.lexeme? with
    | none =>
      rw [List.filterMap_cons_none hevent]
      exact ih _
    | some lexeme =>
      rw [List.filterMap_cons_some hevent]
      rw [Event.lexeme?_eq_some_iff.1 hevent] at hsteps
      cases hsteps with
      | lexeme hfirst hlt hlast =>
        refine .cons (fun other hother => ?_) (ih _)
        rw [hlast]
        exact (bounds_answers _ calls other hother).1

/-- Calls of `nextLexeme` take no notice of whether the scanner has failed. -/
theorem events_of_cursor_eq {other : Scanner} (h : other.cursor = scanner.cursor) (calls : Nat) :
    other.events calls = scanner.events calls ∧
      (other.after calls).cursor = (scanner.after calls).cursor := by
  induction calls generalizing other scanner with
  | zero => exact ⟨rfl, h⟩
  | succ calls ih =>
    have hevent : other.nextLexeme.1 = scanner.nextLexeme.1 := by
      show other.cursor.nextEvent.1 = scanner.cursor.nextEvent.1
      rw [h]
    have hcursor : other.nextLexeme.2.cursor = scanner.nextLexeme.2.cursor := by
      show other.cursor.nextEvent.2 = scanner.cursor.nextEvent.2
      rw [h]
    obtain ⟨hevents, hafter⟩ := ih hcursor
    exact ⟨congrArg₂ List.cons hevent hevents, hafter⟩

/-- **Whatever calls are made, they come upon what calls of `nextLexeme` alone come upon**, as far
as they go. -/
theorem exists_events_eq (scanner : Scanner) (calls : List Call) :
    ∃ n, (scanner.answers calls).filter (· ≠ .finished) =
        (scanner.events n).filter (· ≠ .finished) ∧
      (scanner.afterCalls calls).cursor = (scanner.after n).cursor := by
  induction calls generalizing scanner with
  | nil => exact ⟨0, rfl, rfl⟩
  | cons call calls ih =>
    rw [answers, afterCalls]
    rcases scanner.call_cases call with hidle | ⟨failed, hevent⟩
    · -- the call is one of those that do nothing, and is not counted
      obtain ⟨n, hn⟩ := ih scanner
      rw [hidle]
      exact ⟨n, hn⟩
    · obtain ⟨n, hanswers, hafter⟩ := ih ⟨scanner.cursor.nextEvent.2, failed⟩
      have hsame : (Scanner.mk scanner.cursor.nextEvent.2 failed).cursor =
          scanner.nextLexeme.2.cursor := rfl
      obtain ⟨hevents, hcursor⟩ := events_of_cursor_eq hsame n
      rw [hevent]
      refine ⟨n + 1, ?_, hafter.trans hcursor⟩
      show ((scanner.cursor.nextEvent.1 :: _).filter _) =
        (scanner.cursor.nextEvent.1 :: scanner.nextLexeme.2.events n).filter _
      rw [List.filter_cons, List.filter_cons, hanswers, hevents]

/-- **A scanner has failed exactly if a call of `next` has come upon an error.** -/
theorem failed_afterCalls_iff :
    (scanner.afterCalls calls).failed = true ↔
      scanner.failed = true ∨ ∃ before later error, calls = before ++ .next :: later ∧
        (scanner.afterCalls before).next.1 = .error error := by
  induction calls generalizing scanner with
  | nil => simp [afterCalls]
  | cons call calls ih =>
    -- the call that fails is the first one, or it is one of the later ones
    rw [afterCalls, ih, failed_call_iff, or_assoc]
    refine or_congr_right ?_
    constructor
    · rintro (⟨rfl, herror⟩ | ⟨before, later, error, rfl, herror⟩)
      · obtain ⟨error, herror⟩ := Event.exists_of_isError herror
        exact ⟨[], calls, error, rfl, herror⟩
      · exact ⟨call :: before, later, error, rfl, herror⟩
    · rintro ⟨before, later, error, hcalls, herror⟩
      -- a call with nothing before it is the first one
      cases before with
      | nil =>
        obtain ⟨rfl, -⟩ := List.cons.inj hcalls
        have herror : scanner.next.1 = .error error := herror
        exact .inl ⟨rfl, by rw [herror]; rfl⟩
      | cons first before =>
        obtain ⟨rfl, rfl⟩ := List.cons.inj hcalls
        exact .inr ⟨before, later, error, rfl, herror⟩

/-- A scanner that has failed stays so. -/
theorem failed_afterCalls (h : scanner.failed = true) (calls : List Call) :
    (scanner.afterCalls calls).failed = true :=
  failed_afterCalls_iff.2 (.inl h)

/-! ## Calling `next` until the end -/

/-- Calling `next` until it answers that nothing comes next yields the events. -/
inductive Yields : Scanner → List Event → Prop
  | done {scanner after : Scanner} (hnext : scanner.next = (.finished, after)) : Yields scanner []
  | more {scanner after : Scanner} {event : Event} {events : List Event}
    (hnext : scanner.next = (event, after)) (hevent : event ≠ .finished)
    (h : Yields after events) : Yields scanner (event :: events)

/-- There is one list of events that a scanner yields. -/
theorem Yields.unique {events other : List Event} (h : scanner.Yields events)
    (h' : scanner.Yields other) : other = events := by
  induction h generalizing other with
  | done hnext =>
    cases h' with
    | done hnext' => rfl
    | more hnext' hevent h' =>
      rw [hnext] at hnext'
      exact absurd (Prod.mk.inj hnext').1.symm hevent
  | more hnext hevent h ih =>
    cases h' with
    | done hnext' =>
      rw [hnext] at hnext'
      exact absurd (Prod.mk.inj hnext').1 hevent
    | more hnext' hevent' h' =>
      rw [hnext] at hnext'
      obtain ⟨rfl, rfl⟩ := Prod.mk.inj hnext'
      rw [ih h']

/-- What is yielded depends on the next event alone. -/
theorem Yields.of_next_eq {other : Scanner} {events : List Event} (h : scanner.Yields events)
    (hnext : other.next = scanner.next) : other.Yields events := by
  cases h with
  | done hdone => exact .done (hnext.trans hdone)
  | more hmore hevent h => exact .more (hnext.trans hmore) hevent h

end Scanner

/-- The events of a scan: its lexemes, and its error after them. -/
def Scan.events (scan : Scan) : List Scanner.Event :=
  scan.lexemes.map .lexeme ++ (scan.error.map .error).toList

/-- **Calling `next` until the end yields the scan.** -/
theorem Cursor.yields_scan (cursor : Cursor) :
    Scanner.Yields ⟨cursor, false⟩ cursor.scan.events := by
  have hnext : ∀ cursor : Cursor, (Scanner.mk cursor false).next =
      (cursor.nextEvent.1, ⟨cursor.nextEvent.2, cursor.nextEvent.1.isError⟩) :=
    fun _ => Scanner.next_of_not_failed rfl
  induction cursor using reading with
  | finished cursor hread =>
    have hdone := hnext cursor
    rw [nextEvent_of_finished hread] at hdone
    rw [scan_of_finished hread]
    exact .done hdone
  | gap cursor text hread ih =>
    rw [scan_of_gap hread]
    -- both cursors come upon the same event next
    refine ih.of_next_eq ?_
    rw [hnext, hnext, nextEvent_of_gap hread]
  | token cursor kind text hread ih =>
    have hmore := hnext cursor
    rw [nextEvent_of_token hread] at hmore
    rw [scan_of_token hread]
    exact .more hmore (by simp) ih
  | fault cursor cause place taken hread =>
    -- the error makes the scanner fail, so that the next call answers nothing
    have hmore := hnext cursor
    rw [nextEvent_of_fault hread] at hmore
    rw [scan_of_fault hread]
    exact .more hmore (by simp) (.done (Scanner.next_of_failed rfl))

namespace Scan

variable {scan : Scan} {lexemes found : List Lexeme} {error : ScanError}

theorem events_of_none : (Scan.mk lexemes none).events = lexemes.map .lexeme :=
  List.append_nil _

theorem events_of_some :
    (Scan.mk lexemes (some error)).events = lexemes.map .lexeme ++ [.error error] :=
  rfl

/-- Lexemes are not lexemes and an error. -/
theorem events_of_none_ne :
    (Scan.mk lexemes none).events ≠ (Scan.mk found (some error)).events := by
  intro h
  have hmem : Scanner.Event.error error ∈ (Scan.mk found (some error)).events := by
    simp [events_of_some]
  rw [← h, events_of_none] at hmem
  obtain ⟨lexeme, -, hlexeme⟩ := List.mem_map.1 hmem
  exact absurd hlexeme (by simp)

/-- A scan is taken as its lexemes exactly if they are all of its events. -/
theorem toExcept_eq_ok_iff :
    scan.toExcept = .ok lexemes ↔ scan.events = lexemes.map .lexeme := by
  have hinj : Function.Injective Scanner.Event.lexeme := fun a b h => by simpa using h
  obtain ⟨found, _ | cause⟩ := scan
  · rw [events_of_none, hinj.list_map.eq_iff, toExcept, Except.ok.injEq]
  · rw [← events_of_none]
    exact iff_of_false (by simp [toExcept]) events_of_none_ne.symm

/-- A scan is taken as an error exactly if that error comes after lexemes. -/
theorem toExcept_eq_error_iff :
    scan.toExcept = .error error ↔
      ∃ lexemes : List Lexeme, scan.events = lexemes.map .lexeme ++ [.error error] := by
  obtain ⟨found, _ | cause⟩ := scan
  · refine iff_of_false (by simp [toExcept]) ?_
    rintro ⟨lexemes, h⟩
    exact events_of_none_ne h
  · rw [toExcept, Except.error.injEq]
    constructor
    · rintro rfl
      exact ⟨found, events_of_some⟩
    · rintro ⟨lexemes, h⟩
      rw [events_of_some] at h
      simpa using (List.append_inj' h rfl).2

end Scan

/-- **Calls make progress, in order.** Whatever calls have been made to a scanner of a source, in
whichever order:

- a call of `nextLexeme` ends at the end of the source, or it comes upon a lexeme or an error
  further on; so no more of these are come upon than the source has codepoints;
- the lexemes that were come upon have text, lie in the source and lie one after another, also those
  after errors;
- after a call of `next` that came upon an error `next` answers nothing any more and moves nothing,
  and nothing but such a call makes the scanner fail, which `nextLexeme` takes no notice of; so the
  lexemes and errors are those that calls of `nextLexeme` alone come upon, as far as they go;
- calling `next` until the end yields the lexemes of the scan and then its error, and the result of
  the scan is those lexemes if no error comes after them and the error otherwise. -/
theorem calls_make_progress_in_order (source : SourceText) :
    (∀ calls scanner, source.scanner.afterCalls calls = scanner →
      (scanner.nextLexeme.1 = .finished ∧
        scanner.nextLexeme.2.cursor.position = source.length) ∨
      (scanner.nextLexeme.1 ≠ .finished ∧
        scanner.cursor.position < scanner.nextLexeme.2.cursor.position)) ∧
    (∀ calls, ((source.scanner.answers calls).filter (· ≠ .finished)).length ≤ source.length) ∧
    (∀ calls lexemes, (source.scanner.answers calls).filterMap Scanner.Event.lexeme? = lexemes →
      (∀ lexeme ∈ lexemes, lexeme.span.first.offset < lexeme.span.last.offset ∧
        lexeme.span.last.offset ≤ source.length) ∧
      lexemes.Pairwise fun a b => a.span.last.offset ≤ b.span.first.offset) ∧
    (∀ calls error later scanner, (source.scanner.afterCalls calls).next.1 = .error error →
      (source.scanner.afterCalls calls).next.2.afterCalls later = scanner →
      scanner.next = (.finished, scanner)) ∧
    (∀ calls, (source.scanner.afterCalls calls).failed = true ↔
      ∃ before later error, calls = before ++ .next :: later ∧
        (source.scanner.afterCalls before).next.1 = .error error) ∧
    (∀ cursor failed, Scanner.nextLexeme ⟨cursor, failed⟩ =
      ((Scanner.nextLexeme ⟨cursor, false⟩).1,
        ⟨(Scanner.nextLexeme ⟨cursor, false⟩).2.cursor, failed⟩)) ∧
    (∀ calls, ∃ n, (source.scanner.answers calls).filter (· ≠ .finished) =
        (source.scanner.events n).filter (· ≠ .finished) ∧
      (source.scanner.afterCalls calls).cursor = (source.scanner.after n).cursor) ∧
    (∀ events, source.scanner.Yields events ↔ events = source.scan.events) ∧
    (∀ lexemes, source.scan.toExcept = .ok lexemes ↔
      source.scanner.Yields (lexemes.map .lexeme)) ∧
    (∀ error, source.scan.toExcept = .error error ↔
      ∃ lexemes : List Lexeme, source.scanner.Yields (lexemes.map .lexeme ++ [.error error])) := by
  have hstands : ∀ calls, (source.scanner.afterCalls calls).cursor.StandsIn source :=
    fun calls => Scanner.standsIn_afterCalls (Cursor.standsIn_cursor source) calls
  have hyields : ∀ events, source.scanner.Yields events ↔ events = source.scan.events := by
    intro events
    have hscan := source.cursor.yields_scan
    exact ⟨fun h => hscan.unique h, fun h => h ▸ hscan⟩
  refine ⟨?_, ?_, ?_, ?_, ?_, ?_, source.scanner.exists_events_eq, hyields, ?_, ?_⟩
  · -- a call either is at the end or moves on
    rintro calls scanner rfl
    have hafter : (source.scanner.afterCalls calls).nextLexeme.2.cursor.StandsIn source :=
      Scanner.standsIn_afterCalls (hstands calls) [.nextLexeme]
    have hsteps := (source.scanner.afterCalls calls).steps_call .nextLexeme
    by_cases hfinished : (source.scanner.afterCalls calls).nextLexeme.1 = .finished
    · exact .inl ⟨hfinished, hafter.rest_eq_nil_iff.1 (Cursor.rest_nextEvent hfinished)⟩
    · exact .inr ⟨hfinished, hsteps.position_lt hfinished⟩
  · -- every event takes up a codepoint
    intro calls
    have hlength := source.scanner.length_answers_le calls
    exact (Nat.le_of_add_right_le hlength).trans (hstands calls).position_le
  · -- lexemes lie one after another, within the source
    rintro calls lexemes rfl
    refine ⟨fun lexeme hlexeme => ?_, source.scanner.pairwise_answers calls⟩
    obtain ⟨-, hlt, hlast⟩ := source.scanner.bounds_answers calls lexeme hlexeme
    exact ⟨hlt, hlast.trans (hstands calls).position_le⟩
  · -- an error is the last that `next` answers
    rintro calls error later scanner herror rfl
    refine Scanner.next_of_failed (Scanner.failed_afterCalls ?_ later)
    refine Scanner.failed_call_iff.2 (.inr ⟨rfl, ?_⟩)
    rw [herror]
    rfl
  · -- a scanner that has not begun has not failed
    intro calls
    rw [Scanner.failed_afterCalls_iff]
    exact or_iff_right (by simp [SourceText.scanner])
  · intro cursor failed
    rfl
  · -- the lexemes of a scan without an error are all that is yielded
    intro lexemes
    rw [Scan.toExcept_eq_ok_iff, hyields]
    exact eq_comm
  · -- an error comes last
    intro error
    rw [Scan.toExcept_eq_error_iff]
    exact exists_congr fun lexemes => by rw [hyields, eq_comm]

/-- The empty character literal is an error. `next` comes upon it, and it answers nothing any more
when `nextLexeme` has gone on to the letter, which is still ahead. -/
theorem calls_make_progress_in_order_empty_literal :
    ((SourceText.mk ['\'', '\'', '\n', 'a']).scanner.afterCalls
        [.next, .nextLexeme, .nextLexeme]).next.1 = .finished ∧
      ((SourceText.mk ['\'', '\'', '\n', 'a']).scanner.afterCalls
        [.next, .nextLexeme, .nextLexeme]).cursor.position <
      ((SourceText.mk ['\'', '\'', '\n', 'a']).scanner.afterCalls
        [.next, .nextLexeme, .nextLexeme]).nextLexeme.2.cursor.position := by
  obtain ⟨hprogress, -, -, hfused, -⟩ :=
    calls_make_progress_in_order ⟨['\'', '\'', '\n', 'a']⟩
  constructor
  · exact congrArg Prod.fst (hfused [] ⟨.emptyCharacterLiteral, Location.start⟩
      [.nextLexeme, .nextLexeme] _ (by decide +kernel) rfl)
  · rcases hprogress [.next, .nextLexeme, .nextLexeme] _ rfl with ⟨hfinished, -⟩ | ⟨-, hlt⟩
    · exact absurd hfinished (by decide +kernel)
    · exact hlt

end Lexis
