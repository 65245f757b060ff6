import Lexis.UnitName
import Lexis.Proofs.Text.Utf8
import Lexis.Proofs.Token.Language

/-!
# The names of units and their faults

A text is checked from its end and then from its start: the trailing underscore comes first, then
the first codepoint, then the others one by one. What is found wrong is said here of the text alone.

- `UnitName.IsEscaped`, `UnitName.IsPlain`: the two forms of a name.
- `NameError.Describes`: what a fault says of a text.
- `UnitName.fault?_eq_none_iff`, `UnitName.fault?_eq_some_iff`: a name is one of the two forms, and
  any other text has the fault that describes it.
- `names_are_checked_in_order`: all of it together, for the bytes of a text too.
-/

namespace Lexis

/-- A codepoint has as many bytes as its size says. -/
theorem Text.Utf8.length_encodeChar (c : Char) : (encodeChar c).length = c.utf8Size := by
  have hle : ∀ bound : UInt32, c.val ≤ bound ↔ c.toNat ≤ bound.toNat := fun _ => Iff.rfl
  simp only [encodeChar, Char.utf8Size, hle, UInt32.toNat_ofNatLT]
  split
  · rw [if_pos (by omega)]
    rfl
  · split
    · rw [if_neg (by omega), if_pos (by omega)]
      rfl
    · split
      · rw [if_neg (by omega), if_neg (by omega), if_pos (by omega)]
        rfl
      · rw [if_neg (by omega), if_neg (by omega), if_neg (by omega)]
        rfl

theorem Text.Utf8.length_encode_cons (c : Char) (text : List Char) :
    (encode (c :: text)).length = c.utf8Size + (encode text).length := by
  rw [← length_encodeChar, ← List.length_append]
  rfl

namespace UnitName

/-! ## The forms of a name -/

/-- A keyword and an underscore. -/
def IsEscaped (text : List Char) : Prop :=
  ∃ keyword : Keyword, text = keyword.text.toList ++ ['_']

/-- A small letter, and after it small letters and digits. -/
def IsPlain (text : List Char) : Prop :=
  ∃ initial rest, text = initial :: rest ∧ initial.isLower = true ∧
    ∀ c ∈ rest, c.isLower = true ∨ c.isDigit = true

/-- A text of one of the two forms. -/
def IsName (text : List Char) : Prop := IsEscaped text ∨ IsPlain text

variable {text rest stem : List Char} {initial c : Char} {index : Nat} {error : NameError}

theorem isNameChar_iff : isNameChar c = true ↔ c.isLower = true ∨ c.isDigit = true :=
  Bool.or_eq_true_iff

theorem isNameChar_eq_false_iff :
    isNameChar c = false ↔ c.isLower = false ∧ c.isDigit = false :=
  Bool.or_eq_false_iff

/-- A plain name ends with one of its letters and digits. -/
theorem IsPlain.getLast?_ne (h : IsPlain text) : text.getLast? ≠ some '_' := by
  obtain ⟨initial, rest, rfl, hinitial, hrest⟩ := h
  intro hlast
  rcases List.mem_cons.1 (List.mem_of_getLast? hlast) with rfl | hmem
  · exact absurd hinitial (by decide)
  · exact absurd (hrest '_' hmem) (by decide)

theorem isEscaped_concat : IsEscaped (stem ++ ['_']) ↔ Keyword.isKeyword stem = true := by
  rw [Keyword.isKeyword, Option.isSome_iff_exists]
  refine exists_congr fun keyword => ?_
  rw [Keyword.ofText?_eq_some_iff, List.append_left_inj]

end UnitName

/-! ## Faults -/

/-- What a fault says of the text it is found in. Of a text with more than one fault the trailing
underscore counts first, then the first codepoint, then the first of the others that is wrong. -/
def NameError.Describes (text : List Char) : NameError → Prop
  | empty => text = []
  | notAnEscapedKeyword name => name = text ∧ text.getLast? = some '_'
  | invalidInitial name initial =>
    name = text ∧ text.getLast? ≠ some '_' ∧ text.head? = some initial ∧ initial.isLower = false
  | invalidCharacter name character index =>
    name = text ∧ text.getLast? ≠ some '_' ∧
      ∃ before after, text = before ++ character :: after ∧ UnitName.IsPlain before ∧
        character.isLower = false ∧ character.isDigit = false ∧
        index = (Text.Utf8.encode before).length

namespace UnitName

variable {text rest stem : List Char} {initial c : Char} {index : Nat} {error : NameError}

/-- Nothing is found where every codepoint may stand in a name. -/
theorem firstInvalid?_eq_none_iff :
    firstInvalid? index text = none ↔ ∀ c ∈ text, isNameChar c = true := by
  induction text generalizing index with
  | nil => simp [firstInvalid?]
  | cons d text ih =>
    rw [firstInvalid?, List.forall_mem_cons]
    split
    next hd => rw [ih, and_iff_right hd]
    next hd => exact iff_of_false (by simp) fun h => hd h.1

/-- **The search finds the first codepoint that may not stand in a name**, and counts the bytes of
what comes before it. -/
theorem firstInvalid?_eq_some_iff {found : Nat} :
    firstInvalid? index text = some (c, found) ↔
      ∃ before after, text = before ++ c :: after ∧ (∀ d ∈ before, isNameChar d = true) ∧
        isNameChar c = false ∧ found = index + (Text.Utf8.encode before).length := by
  induction text generalizing index with
  | nil => simp [firstInvalid?]
  | cons d text ih =>
    rw [firstInvalid?]
    split
    -- the first codepoint may stand in a name, so the search goes on behind it
    next hd =>
      rw [ih]
      constructor
      · rintro ⟨before, after, rfl, hbefore, hc, rfl⟩
        refine ⟨d :: before, after, rfl, List.forall_mem_cons.2 ⟨hd, hbefore⟩, hc, ?_⟩
        rw [Text.Utf8.length_encode_cons, Nat.add_assoc]
      · rintro ⟨_ | ⟨e, before⟩, after, htext, hbefore, hc, rfl⟩
        · obtain ⟨rfl, -⟩ := List.cons.inj htext
          rw [hd] at hc
          cases hc
        · obtain ⟨rfl, rfl⟩ := List.cons.inj htext
          refine ⟨before, after, rfl, (List.forall_mem_cons.1 hbefore).2, hc, ?_⟩
          rw [Text.Utf8.length_encode_cons, Nat.add_assoc]
    -- the first codepoint is the one
    next hd =>
      rw [Option.some.injEq, Prod.mk.injEq]
      constructor
      · rintro ⟨rfl, rfl⟩
        exact ⟨[], text, rfl, List.forall_mem_nil _, Bool.eq_false_iff.2 hd, rfl⟩
      · rintro ⟨_ | ⟨e, before⟩, after, htext, hbefore, hc, rfl⟩
        · obtain ⟨rfl, -⟩ := List.cons.inj htext
          exact ⟨rfl, rfl⟩
        · obtain ⟨rfl, -⟩ := List.cons.inj htext
          exact absurd (List.forall_mem_cons.1 hbefore).1 hd

/-! ## What is checked, case by case -/

/-- A trailing underscore calls for a keyword before it, whatever else the text has. -/
theorem fault?_concat :
    fault? (stem ++ ['_']) =
      if Keyword.isKeyword stem then none else some (.notAnEscapedKeyword (stem ++ ['_'])) := by
  obtain ⟨initial, rest, h⟩ := List.exists_cons_of_ne_nil (List.concat_ne_nil '_' stem)
  rw [h, fault?, ← h, if_pos List.getLast?_concat, List.dropLast_concat]

/-- Without one the first codepoint is looked at before the others. -/
theorem fault?_cons (hends : (initial :: rest).getLast? ≠ some '_') :
    fault? (initial :: rest) =
      if initial.isLower then
        (firstInvalid? initial.utf8Size rest).map
          fun (c, index) => .invalidCharacter (initial :: rest) c index
      else some (.invalidInitial (initial :: rest) initial) := by
  rw [fault?, if_neg hends]

theorem isName_concat : IsName (stem ++ ['_']) ↔ Keyword.isKeyword stem = true := by
  rw [← isEscaped_concat]
  exact or_iff_left fun h => h.getLast?_ne List.getLast?_concat

theorem isName_cons_iff (hends : (initial :: rest).getLast? ≠ some '_') :
    IsName (initial :: rest) ↔ initial.isLower = true ∧ ∀ c ∈ rest, isNameChar c = true := by
  simp only [isNameChar_iff]
  constructor
  · rintro (⟨keyword, htext⟩ | ⟨c, more, htext, hc, hmore⟩)
    · exact absurd (htext ▸ List.getLast?_concat) hends
    · obtain ⟨rfl, rfl⟩ := List.cons.inj htext
      exact ⟨hc, hmore⟩
  · rintro ⟨hinitial, hrest⟩
    exact .inr ⟨initial, rest, rfl, hinitial, hrest⟩

/-- **A text without a fault is a text of one of the two forms.** -/
theorem fault?_eq_none_iff : fault? text = none ↔ IsName text := by
  by_cases hends : text.getLast? = some '_'
  · obtain ⟨stem, rfl⟩ := List.getLast?_eq_some_iff.1 hends
    rw [fault?_concat, isName_concat]
    split
    next h => exact iff_of_true rfl h
    next h => exact iff_of_false (by simp) h
  · cases text with
    | nil => exact iff_of_false (by simp [fault?]) (by simp [IsName, IsEscaped, IsPlain])
    | cons initial rest =>
      rw [fault?_cons hends, isName_cons_iff hends]
      split
      next h => rw [Option.map_eq_none_iff, firstInvalid?_eq_none_iff, and_iff_right h]
      next h => exact iff_of_false (by simp) fun hname => h hname.1

/-- What is found is true of the text. -/
theorem describes_of_fault? (h : fault? text = some error) : error.Describes text := by
  by_cases hends : text.getLast? = some '_'
  · obtain ⟨stem, rfl⟩ := List.getLast?_eq_some_iff.1 hends
    rw [fault?_concat] at h
    split at h
    · cases h
    · obtain rfl := Option.some.inj h
      exact ⟨rfl, hends⟩
  · cases text with
    | nil =>
      obtain rfl := Option.some.inj h
      rfl
    -- without one its codepoints are looked at in order
    | cons initial rest =>
      rw [fault?_cons hends] at h
      split at h
      next hinitial =>
        obtain ⟨⟨c, index⟩, hfound, rfl⟩ := Option.map_eq_some_iff.1 h
        obtain ⟨before, after, rfl, hbefore, hc, rfl⟩ := firstInvalid?_eq_some_iff.1 hfound
        obtain ⟨hlower, hdigit⟩ := isNameChar_eq_false_iff.1 hc
        refine ⟨rfl, hends, initial :: before, after, rfl, ?_, hlower, hdigit, ?_⟩
        · exact ⟨initial, before, rfl, hinitial, fun d hd => isNameChar_iff.1 (hbefore d hd)⟩
        · exact (Text.Utf8.length_encode_cons initial before).symm
      next hinitial =>
        obtain rfl := Option.some.inj h
        exact ⟨rfl, hends, rfl, Bool.eq_false_iff.2 hinitial⟩

/-- A fault that describes a text without a name is found. -/
theorem fault?_of_describes (hname : ¬IsName text) (h : error.Describes text) :
    fault? text = some error := by
  cases error with
  | empty =>
    obtain rfl := h
    rfl
  | notAnEscapedKeyword name =>
    obtain ⟨rfl, hends⟩ := h
    obtain ⟨stem, rfl⟩ := List.getLast?_eq_some_iff.1 hends
    rw [fault?_concat, if_neg (mt isName_concat.2 hname)]
  | invalidInitial name initial =>
    obtain ⟨rfl, hends, hhead, hinitial⟩ := h
    obtain ⟨rest, rfl⟩ := List.head?_eq_some_iff.1 hhead
    rw [fault?_cons hends, if_neg (Bool.eq_false_iff.1 hinitial)]
  | invalidCharacter name c index =>
    obtain ⟨rfl, hends, before, after, rfl, hbefore, hlower, hdigit, rfl⟩ := h
    obtain ⟨initial, rest, rfl, hinitial, hrest⟩ := hbefore
    -- the search finds the codepoint, with the bytes counted from the first on
    have hfound : firstInvalid? initial.utf8Size (rest ++ c :: after) =
        some (c, (Text.Utf8.encode (initial :: rest)).length) := by
      refine firstInvalid?_eq_some_iff.2 ⟨rest, after, rfl, ?_, ?_, ?_⟩
      · exact fun d hd => isNameChar_iff.2 (hrest d hd)
      · exact isNameChar_eq_false_iff.2 ⟨hlower, hdigit⟩
      · exact Text.Utf8.length_encode_cons initial rest
    rw [List.cons_append] at hends ⊢
    rw [fault?_cons hends, if_pos hinitial, hfound]
    rfl

/-- **A text that is no name has the one fault that describes it.** -/
theorem fault?_eq_some_iff : fault? text = some error ↔ ¬IsName text ∧ error.Describes text := by
  constructor
  · intro h
    refine ⟨fun hname => ?_, describes_of_fault? h⟩
    rw [fault?_eq_none_iff.2 hname] at h
    cases h
  · rintro ⟨hname, h⟩
    exact fault?_of_describes hname h

/-- A name is a text of one of the two forms. -/
theorem isName (name : UnitName) : IsName name.text := fault?_eq_none_iff.1 name.valid

/-- A name begins with a letter. -/
theorem exists_cons (name : UnitName) : ∃ c rest, name.text = c :: rest ∧ c.isAlpha = true := by
  rcases name.isName with ⟨keyword, htext⟩ | ⟨c, rest, htext, hc, -⟩
  · obtain ⟨c, rest, hkeyword, hc⟩ := keyword.exists_cons
    refine ⟨c, rest ++ ['_'], ?_, hc⟩
    rw [htext, hkeyword]
    rfl
  · exact ⟨c, rest, htext, Text.isAlpha_of_isLower hc⟩

theorem ofText_eq_ok_iff {name : UnitName} : ofText text = .ok name ↔ name.text = text := by
  rw [ofText]
  split
  next hfault =>
    rw [Except.ok.injEq]
    constructor
    · rintro rfl
      rfl
    · rintro rfl
      rfl
  next error hfault =>
    refine iff_of_false (fun h => by cases h) ?_
    rintro rfl
    rw [name.valid] at hfault
    cases hfault

theorem exists_ofText_eq_ok_iff : (∃ name, ofText text = .ok name) ↔ IsName text := by
  rw [← fault?_eq_none_iff]
  constructor
  · rintro ⟨name, hname⟩
    obtain rfl := ofText_eq_ok_iff.1 hname
    exact name.valid
  · intro hfault
    exact ⟨⟨text, hfault⟩, ofText_eq_ok_iff.2 rfl⟩

theorem ofText_eq_error_iff : ofText text = .error error ↔ fault? text = some error := by
  rw [ofText]
  split <;> simp_all

end UnitName

/-- **Names are checked in order.** A text is a name, and is said by the name as it stands, exactly
if it is a keyword and one underscore, or a small letter with small letters and digits after it. Any
other text has the one fault that describes it: it is empty, or else it ends with an underscore, or
else it begins with no small letter, or else a later codepoint is neither a small letter nor a
digit. In the bytes of the text that codepoint stands at the index that is reported, and all before
it is a name by itself. -/
theorem names_are_checked_in_order (text : List Char) :
    ((∃ name, UnitName.ofText text = .ok name) ↔ UnitName.IsEscaped text ∨ UnitName.IsPlain text) ∧
    (∀ name, UnitName.ofText text = .ok name → name.text = text) ∧
    (∀ error, UnitName.ofText text = .error error ↔
      ¬(UnitName.IsEscaped text ∨ UnitName.IsPlain text) ∧ error.Describes text) ∧
    ∀ name character index,
      UnitName.ofText text = .error (.invalidCharacter name character index) →
        ∃ before : UnitName, (Text.Utf8.encode text).take index = Text.Utf8.encode before.text ∧
          Text.Utf8.encodeChar character <+: (Text.Utf8.encode text).drop index := by
  refine ⟨UnitName.exists_ofText_eq_ok_iff, fun name => UnitName.ofText_eq_ok_iff.1,
    fun error => ?_, ?_⟩
  · rw [UnitName.ofText_eq_error_iff]
    exact UnitName.fault?_eq_some_iff
  · intro name character index h
    obtain ⟨-, -, before, after, rfl, hbefore, -, -, rfl⟩ :=
      UnitName.describes_of_fault? (UnitName.ofText_eq_error_iff.1 h)
    -- the bytes of a text are those of its parts
    have hbytes : Text.Utf8.encode (before ++ character :: after) =
        Text.Utf8.encode before ++
          (Text.Utf8.encodeChar character ++ Text.Utf8.encode after) := by
      rw [Text.Utf8.encode, List.flatMap_append, List.flatMap_cons]
      rfl
    refine ⟨⟨before, UnitName.fault?_eq_none_iff.2 (.inr hbefore)⟩, ?_, ?_⟩
    · rw [hbytes, List.take_left]
    · rw [hbytes, List.drop_left]
      exact List.prefix_append _ _

/-- A keyword and an underscore, but the text goes on: no codepoint after the underscore matters. -/
theorem names_are_checked_in_order_inner_underscore :
    UnitName.ofText ['i', 'f', '_', '\u00e9'] =
        .error (.invalidCharacter ['i', 'f', '_', '\u00e9'] '_' 2) ∧
      ∃ before : UnitName,
        (Text.Utf8.encode ['i', 'f', '_', '\u00e9']).take 2 = Text.Utf8.encode before.text ∧
          Text.Utf8.encodeChar '_' <+: (Text.Utf8.encode ['i', 'f', '_', '\u00e9']).drop 2 := by
  have hfault : UnitName.ofText ['i', 'f', '_', '\u00e9'] =
      .error (.invalidCharacter ['i', 'f', '_', '\u00e9'] '_' 2) :=
    UnitName.ofText_eq_error_iff.2 (by decide)
  exact ⟨hfault, (names_are_checked_in_order _).2.2.2 _ _ _ hfault⟩

end Lexis
