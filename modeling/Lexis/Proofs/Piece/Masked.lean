import Lexis.Proofs.Piece.Begins
import Lexis.Proofs.Piece.Decimal
import Lexis.Proofs.Piece.Gap
import Lexis.Proofs.Piece.Literal
import Lexis.Proofs.Text.Hex
import Lexis.Proofs.Token.Language

/-!
# Codepoints that no rule asks for

The rules for reading ask for letters, digits, some single codepoints and those of the marks. Any
other codepoint is to all of them the same as any other. So a text can be masked, each codepoint
that no rule asks for by another such, and what is read of it is what was read of it before, masked
in the same way.

- `Significant`: the codepoints that rules ask for.
- `IsMask`: a map that leaves them as they are, and makes no other codepoint one of them.
- `IsMask.iff_of_significant`: no test for significant codepoints sees through a mask.
- `Item.read_map`, `Piece.stringItems_map`, `Mantissa.read_map`: reading a masked text, part by
  part.
- `Piece.read?_map`: a masked text begins with the masked piece.
-/

namespace Lexis

/-! ## Masks -/

/-- Some rule asks for the codepoint: it is an ASCII letter or digit, an underscore, a space, a
newline, a number sign, a backslash, or one of the codepoints that marks are written with. -/
def Significant (c : Char) : Prop :=
  c.isAlpha = true ∨ c.isDigit = true ∨ c ∈ ['_', ' ', '\n', '#', '\\'] ∨
    ∃ mark ∈ Mark.longestFirst, c ∈ mark.text

instance (c : Char) : Decidable (Significant c) := inferInstanceAs (Decidable (_ ∨ _))

/-- The map leaves significant codepoints as they are, and makes no other codepoint significant. -/
structure IsMask (f : Char → Char) : Prop where
  eq_self : ∀ c, Significant c → f c = c
  insignificant : ∀ c, ¬Significant c → ¬Significant (f c)

theorem significant_of_isHexDigit {c : Char} (h : Text.isHexDigit c = true) : Significant c := by
  rcases Text.isDigit_or_isAlpha_of_isHexDigit h with hdigit | halpha
  · exact .inr (.inl hdigit)
  · exact .inl halpha

theorem significant_of_isRunChar {c : Char} (h : Digits.isRunChar c = true) : Significant c := by
  rcases Bool.or_eq_true_iff.1 h with hdigit | hunder
  · exact .inr (.inl hdigit)
  · obtain rfl := beq_iff_eq.1 hunder
    decide

theorem significant_of_isEscapable {c : Char} (h : Item.isEscapable c = true) : Significant c := by
  rcases Item.isEscapable_iff.1 h with rfl | rfl | rfl | rfl <;> decide

theorem Mark.significant_of_mem (mark : Mark) : ∀ c ∈ mark.text, Significant c := by
  intro c hc
  exact .inr (.inr (.inr ⟨mark, mark.mem_longestFirst, hc⟩))

namespace IsMask

variable {f : Char → Char} {s mark : List Char} {c d : Char}

/-- **No test for significant codepoints sees through a mask.** -/
theorem iff_of_significant (h : IsMask f) {p : Char → Prop} (hp : ∀ c, p c → Significant c)
    (c : Char) : p (f c) ↔ p c := by
  by_cases hc : Significant c
  · rw [h.eq_self c hc]
  · exact ⟨fun hfc => absurd (hp _ hfc) (h.insignificant c hc), fun hpc => absurd (hp _ hpc) hc⟩

theorem eq_iff (h : IsMask f) (hd : Significant d) : f c = d ↔ c = d :=
  h.iff_of_significant (p := (· = d)) (fun _ he => he ▸ hd) c

/-- So it is with classes of codepoints. -/
theorem comp_eq (h : IsMask f) {p : Char → Bool} (hp : ∀ c, p c = true → Significant c) :
    p ∘ f = p := by
  funext c
  exact Bool.eq_iff_iff.2 (h.iff_of_significant hp c)

theorem head?_map_eq_iff (h : IsMask f) (hd : Significant d) :
    (s.map f).head? = some d ↔ s.head? = some d := by
  rw [List.head?_map, Option.map_eq_some_iff]
  simp only [h.eq_iff hd, exists_eq_right]

theorem map_eq_self (h : IsMask f) (hs : ∀ c ∈ s, Significant c) : s.map f = s :=
  (List.map_congr_left fun c hc => h.eq_self c (hs c hc)).trans (List.map_id s)

/-- A mark stands at the head of a masked text where it stood before. -/
theorem isPrefixOf_map (h : IsMask f) (hmark : ∀ c ∈ mark, Significant c) (s : List Char) :
    mark.isPrefixOf (s.map f) = mark.isPrefixOf s := by
  induction mark generalizing s with
  | nil => rfl
  | cons d mark ih =>
    obtain ⟨hd, hmark⟩ := List.forall_mem_cons.1 hmark
    cases s with
    | nil => rfl
    | cons c s =>
      have hhead : (d == f c) = (d == c) := by
        rw [Bool.eq_iff_iff, beq_iff_eq, beq_iff_eq, eq_comm, h.eq_iff hd, eq_comm]
      rw [List.map_cons, List.isPrefixOf, List.isPrefixOf, ih hmark, hhead]

/-! ## Runs -/

theorem takeWhile_map (h : IsMask f) {p : Char → Bool} (hp : ∀ c, p c = true → Significant c)
    (s : List Char) : (s.map f).takeWhile p = (s.takeWhile p).map f := by
  rw [List.takeWhile_map, h.comp_eq hp]

theorem dropWhile_map (h : IsMask f) {p : Char → Bool} (hp : ∀ c, p c = true → Significant c)
    (s : List Char) : (s.map f).dropWhile p = (s.dropWhile p).map f := by
  rw [List.dropWhile_map, h.comp_eq hp]

/-! ## Searches -/

theorem throughFirst?_map (h : IsMask f) (hmark : ∀ c ∈ mark, Significant c) (s : List Char) :
    Text.throughFirst? mark (s.map f) = (Text.throughFirst? mark s).map (List.map f) := by
  induction s with
  | nil => rfl
  | cons c s ih =>
    have hprefix := h.isPrefixOf_map hmark (c :: s)
    rw [List.map_cons] at hprefix ⊢
    rw [Text.throughFirst?, Text.throughFirst?, hprefix, ih]
    split
    · rw [Option.map_some, h.map_eq_self hmark]
    · rw [Option.map_map, Option.map_map]
      rfl

theorem throughNewline_map (h : IsMask f) (s : List Char) :
    Text.throughNewline (s.map f) = (Text.throughNewline s).map f := by
  induction s with
  | nil => rfl
  | cons c s ih =>
    rw [List.map_cons, Text.throughNewline, Text.throughNewline, ih]
    simp only [h.eq_iff (show Significant '\n' by decide)]
    split <;> rfl

end IsMask

variable {f : Char → Char} {s rest : List Char}

/-! ## Items -/

namespace Item

/-- An item in a masked text. -/
def mask (f : Char → Char) : Item → Item
  | verbatim c => verbatim (f c)
  | escaped c => escaped (f c)
  | numbered digits => numbered (digits.map f)

theorem text_mask (h : IsMask f) (item : Item) : (item.mask f).text = item.text.map f := by
  have hback : f '\\' = '\\' := h.eq_self '\\' (by decide)
  cases item <;> simp [mask, text, hback]

theorem readEscape_map (h : IsMask f) (s : List Char) :
    readEscape (s.map f) = (readEscape s).map (Prod.map (mask f) (List.map f)) := by
  cases s with
  | nil => rfl
  | cons c s =>
    have hescape : isEscapable (f c) = isEscapable c :=
      congrFun (h.comp_eq fun _ => significant_of_isEscapable) c
    have htake := h.takeWhile_map (fun _ => significant_of_isHexDigit) (c :: s)
    have hdrop := h.dropWhile_map (fun _ => significant_of_isHexDigit) (c :: s)
    rw [List.map_cons] at htake hdrop ⊢
    rw [readEscape, readEscape, hescape, htake, hdrop]
    dsimp only
    rw [List.length_map]
    split
    · rfl
    · split <;> rfl

/-- **Reading an item of a masked text** finds the masked item, or the same fault. -/
theorem read_map (h : IsMask f) (s : List Char) :
    read (s.map f) = (read s).map (Prod.map (mask f) (List.map f)) := by
  cases s with
  | nil => rfl
  | cons c s =>
    rw [List.map_cons, read, read, readEscape_map h]
    simp only [h.eq_iff (show Significant '\n' by decide),
      h.eq_iff (show Significant '\\' by decide)]
    split
    · rfl
    · split <;> rfl

end Item

/-! ## Digits -/

theorem Digits.read?_map (h : IsMask f) (s : List Char) :
    read? (s.map f) = (read? s).map (Prod.map (List.map f) (List.map f)) := by
  cases s with
  | nil => rfl
  | cons c s =>
    have hdigit : (f c).isDigit = c.isDigit := congrFun (h.comp_eq fun _ hd => .inr (.inl hd)) c
    have htake := h.takeWhile_map (fun _ => significant_of_isRunChar) s
    have hdrop := h.dropWhile_map (fun _ => significant_of_isRunChar) s
    rw [List.map_cons, read?, read?, hdigit, htake, hdrop]
    split <;> rfl

theorem Fraction.read_map (h : IsMask f) (s : List Char) :
    read (s.map f) = Prod.map (List.map f) (List.map f) (read s) := by
  have hpoint : f '.' = '.' := h.eq_self '.' (by decide)
  by_cases hs : s.head? = some '.'
  · obtain ⟨t, rfl⟩ := List.head?_eq_some_iff.1 hs
    rw [List.map_cons, hpoint, read, read, Digits.read?_map h]
    cases Digits.read? t with
    | none => simp [hpoint]
    | some found => simp [hpoint]
  · have hfs : (s.map f).head? ≠ some '.' := mt (h.head?_map_eq_iff (by decide)).1 hs
    have hnil : ∀ t : List Char, t.head? ≠ some '.' → read t = ([], t) := by
      intro t ht
      refine read_eq_nil fun d u hu => absurd ?_ ht
      rw [hu]
      rfl
    rw [hnil s hs, hnil _ hfs]
    rfl

theorem Mantissa.read_map (h : IsMask f) (s : List Char) :
    read (s.map f) = Prod.map (List.map f) (List.map f) (read s) := by
  rw [read, read, Digits.read?_map h]
  cases Digits.read? s with
  | none => rfl
  | some found => simp [Fraction.read_map h]

/-! ## Pieces -/

namespace Piece

/-- A piece of a masked text. Where a fault lies has nothing to do with the mask. -/
def mask (f : Char → Char) : Piece → Piece
  | gap text => gap (text.map f)
  | token kind text => token kind (text.map f)
  | fault cause place taken => fault cause place taken

theorem comment_map (h : IsMask f) (rest : List Char) :
    comment (rest.map f) = (comment rest).mask f := by
  have hsign : f '#' = '#' := h.eq_self '#' (by decide)
  have hbrace : f '\x7b' = '\x7b' := h.eq_self '\x7b' (by decide)
  by_cases hblock : rest.head? = some '\x7b'
  · -- both braces and the number sign of the closing mark are significant
    obtain ⟨body, rfl⟩ := List.head?_eq_some_iff.1 hblock
    have hmark : ∀ c ∈ ['\x7d', '#'], Significant c :=
      List.forall_mem_cons.2 ⟨by decide, List.forall_mem_singleton.2 (by decide)⟩
    rw [List.map_cons, hbrace, comment, comment, h.throughFirst?_map hmark]
    cases Text.throughFirst? ['\x7d', '#'] body <;> simp [mask, hsign, hbrace]
  · have hline : (rest.map f).head? ≠ some '\x7b' := mt (h.head?_map_eq_iff (by decide)).1 hblock
    rw [comment_of_head?_ne hblock, comment_of_head?_ne hline, h.throughNewline_map, mask,
      List.map_cons, hsign]

theorem itemFault_map (form : Quoted) (before : Nat) (rest : List Char) (why : Item.Fault) :
    itemFault form before (rest.map f) why = (itemFault form before rest why).mask f := by
  cases why <;> simp [itemFault, mask]

theorem character_map (h : IsMask f) (rest : List Char) :
    character (rest.map f) = (character rest).mask f := by
  have hprime : f '\'' = '\'' := h.eq_self '\'' (by decide)
  have hhead : ∀ s : List Char, (s.map f).head? = some '\'' ↔ s.head? = some '\'' :=
    fun s => h.head?_map_eq_iff (by decide)
  rw [character, character, Item.read_map h]
  simp only [headD_eq_iff, hhead]
  split
  · rfl
  · cases Item.read rest with
    | error why => exact itemFault_map .character 1 rest why
    | ok found =>
      obtain ⟨item, after⟩ := found
      simp only [Except.map, Prod.map, hhead, Item.text_mask h]
      split <;> simp [mask, hprime]

/-- **Reading the items of a masked text** finds the masked items, and stops at the same place. -/
theorem stringItems_map (h : IsMask f) (s : List Char) :
    stringItems (s.map f) = ((stringItems s).1.map (Item.mask f),
      (stringItems s).2.map (Prod.map id (List.map f))) := by
  have hquote : f '"' = '"' := h.eq_self '"' (by decide)
  -- a mask neither puts a closing quote before an item nor takes one away
  induction s using stringItems.induct with
  | case1 s hhead =>
    obtain ⟨rest, rfl⟩ := List.head?_eq_some_iff.1 hhead
    rw [List.map_cons, hquote, stringItems_of_quote, stringItems_of_quote]
    rfl
  | case2 s hhead why hwhy =>
    have hfhead := mt (h.head?_map_eq_iff (by decide)).1 hhead
    have hfwhy : Item.read (s.map f) = .error why := by rw [Item.read_map h, hwhy]; rfl
    rw [stringItems_of_fault hhead (Item.read_eq_error_iff.1 hwhy),
      stringItems_of_fault hfhead (Item.read_eq_error_iff.1 hfwhy)]
    rfl
  | case3 s hhead item after hitem items stop hafter ih =>
    have hfhead := mt (h.head?_map_eq_iff (by decide)).1 hhead
    have hfitem : Item.read (s.map f) = .ok (item.mask f, after.map f) := by
      rw [Item.read_map h, hitem]
      rfl
    rw [stringItems_of_read hhead hitem, stringItems_of_read hfhead hfitem, ih]
    rfl

theorem string_map (h : IsMask f) (rest : List Char) :
    string (rest.map f) = (string rest).mask f := by
  have hquote : f '"' = '"' := h.eq_self '"' (by decide)
  have htext : ∀ items : List Item,
      (items.map (Item.mask f)).flatMap Item.text = (items.flatMap Item.text).map f := by
    intro items
    rw [List.flatMap_map, List.map_flatMap]
    simp only [Item.text_mask h]
  rw [string, string, stringItems_map h]
  obtain ⟨items, stop⟩ := stringItems rest
  cases stop with
  | none => simp [mask, hquote, htext]
  | some found =>
    simp only [Option.map_some, Prod.map, id, htext, List.length_map]
    exact itemFault_map ..

theorem rawString_map (h : IsMask f) (rest : List Char) :
    rawString (rest.map f) = (rawString rest).mask f := by
  have hback : f '\x60' = '\x60' := h.eq_self '\x60' (by decide)
  have hmark : ∀ c ∈ ['\x60'], Significant c := List.forall_mem_singleton.2 (by decide)
  rw [rawString, rawString, h.throughFirst?_map hmark]
  cases Text.throughFirst? ['\x60'] rest <;> simp [mask, hback]

theorem decimal_map (h : IsMask f) (s : List Char) : decimal (s.map f) = (decimal s).mask f := by
  have hmarker : ∀ c, (f c = 'e' ∨ f c = 'E') ↔ (c = 'e' ∨ c = 'E') := by
    intro c
    rw [h.eq_iff (by decide), h.eq_iff (by decide)]
  rw [decimal, decimal, Mantissa.read_map h]
  obtain ⟨mantissa, after⟩ := Mantissa.read s
  cases after with
  | nil => rfl
  | cons c rest =>
    simp only [Prod.map, List.map_cons, hmarker, Digits.read?_map h, List.length_map]
    split
    · cases Digits.read? rest <;> simp [mask]
    · rfl

theorem word_map (h : IsMask f) (s : List Char) : word (s.map f) = (word s).mask f := by
  have halpha : ∀ c : Char, c.isAlpha = true → Significant c := fun c hc => .inl hc
  have hunder : f '_' = '_' := h.eq_self '_' (by decide)
  have hletters : (s.takeWhile Char.isAlpha).map f = s.takeWhile Char.isAlpha :=
    h.map_eq_self fun c hc => halpha c (Text.of_mem_takeWhile hc)
  have hhead : ∀ t : List Char, (t.map f).head? = some '_' ↔ t.head? = some '_' :=
    fun t => h.head?_map_eq_iff (by decide)
  -- letters are not masked, so the table of keywords is asked for the same word
  rw [word, word, h.takeWhile_map halpha, h.dropWhile_map halpha, hletters]
  simp only [hhead]
  split
  · simp [mask, hletters]
  · split <;> simp [mask, hletters, hunder]

end Piece

theorem Mark.atHead?_map (h : IsMask f) (s : List Char) : atHead? (s.map f) = atHead? s := by
  have hdelim : ∀ c : Char, isDelimiter c = true → Significant c := by
    intro c hc
    rw [isDelimiter, Bool.or_eq_true, Bool.or_eq_true, beq_iff_eq, beq_iff_eq, beq_iff_eq] at hc
    rcases hc with (rfl | rfl) | rfl <;> decide
  cases s with
  | nil => rfl
  | cons c s =>
    have hfits : ∀ mark : Mark, mark.text.isPrefixOf (f c :: s.map f) =
        mark.text.isPrefixOf (c :: s) :=
      fun mark => h.isPrefixOf_map mark.significant_of_mem (c :: s)
    have hc : isDelimiter (f c) = isDelimiter c := congrFun (h.comp_eq hdelim) c
    rw [List.map_cons, atHead?, atHead?, hc]
    simp only [hfits]

namespace Piece

/-- **A rule that applies to a text applies to the masked text**, and yields the masked piece. -/
theorem Begins.mask (h : IsMask f) {piece : Piece} (hs : Begins s piece) :
    Begins (s.map f) (piece.mask f) := by
  have hself : ∀ {c : Char}, Significant c → f c = c := fun hc => h.eq_self _ hc
  cases hs with
  | space rest =>
    rw [List.map_cons, Piece.mask, List.map_singleton, hself (c := ' ') (by decide)]
    exact .space _
  | comment rest =>
    rw [List.map_cons, hself (c := '#') (by decide), ← comment_map h]
    exact .comment _
  | @mark _ mark hmark =>
    rw [Piece.mask, h.map_eq_self mark.significant_of_mem]
    exact .mark ((Mark.atHead?_map h s).trans hmark)
  | character rest =>
    rw [List.map_cons, hself (c := '\'') (by decide), ← character_map h]
    exact .character _
  | string rest =>
    rw [List.map_cons, hself (c := '"') (by decide), ← string_map h]
    exact .string _
  | rawString rest =>
    rw [List.map_cons, hself (c := '\x60') (by decide), ← rawString_map h]
    exact .rawString _
  | @decimal c hc rest =>
    rw [← decimal_map h, List.map_cons, hself (.inr (.inl hc))]
    exact .decimal hc _
  | @word c hc rest =>
    rw [← word_map h, List.map_cons, hself (.inl hc)]
    exact .word hc _
  | @unknown c hspace hsign hmark hdigit halpha rest =>
    -- a mask leaves every codepoint that begins something, and makes no new one
    have hopens : ∀ d, Mark.Opens d → Significant d := by
      rintro d ⟨mark, hd⟩
      exact mark.significant_of_mem d (List.mem_of_mem_head? hd)
    rw [List.map_cons, Piece.mask, List.map_singleton]
    refine .unknown ?_ ?_ ?_ ?_ ?_ _
    · rwa [Ne, h.eq_iff (by decide)]
    · rwa [Ne, h.eq_iff (by decide)]
    · rwa [h.iff_of_significant hopens]
    · rwa [← Function.comp_apply (f := Char.isDigit), h.comp_eq fun _ hd => .inr (.inl hd)]
    · rwa [← Function.comp_apply (f := Char.isAlpha), h.comp_eq fun _ hd => .inl hd]

/-- **A masked text begins with the masked piece.** -/
theorem read?_map (h : IsMask f) (s : List Char) : read? (s.map f) = (read? s).map (mask f) := by
  cases hread : read? s with
  | none => rw [read?_eq_none_iff.1 hread]; rfl
  | some piece => exact read?_of_begins ((begins_of_read? hread).mask h)

end Piece

end Lexis
