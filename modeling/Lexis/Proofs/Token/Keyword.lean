import Lexis.Token.Keyword
import Lexis.Proofs.Text.Codepoint
import Lexis.Proofs.Text.Utf8

/-!
# Keywords are found wherever they are looked for

A keyword stands in the table of all keywords, and once more among the keywords of its length. A
word that has been scanned is asked for as bytes. All three have the same keywords.

- `Keyword.ofText?_eq_some_iff`: looking a text up by its length finds the keyword it is.
- `Keyword.overwrite_eq_some_iff`: what letters leave of a row of bytes.
- `Keyword.ofLetters?_eq_some_iff`: looking up letters finds the keyword they are.
- `keyword_lookups_agree`: all together.
-/

namespace Lexis

namespace Keyword

variable {s : List Char} {keyword : Keyword}

/-! ## By length -/

theorem mem_all (keyword : Keyword) : keyword ∈ all := by
  cases keyword <;> decide

theorem ofText?_text (keyword : Keyword) : ofText? keyword.text.toList = some keyword := by
  cases keyword <;> decide

/-- No keyword is misspelt among those of its length. -/
theorem text_of_mem_ofLength {length : Nat} {entry : String × Keyword}
    (h : entry ∈ ofLength length) : entry.1.toList = entry.2.text.toList := by
  have hall :
      (ofLength length).all (fun entry => entry.1.toList == entry.2.text.toList) = true := by
    unfold ofLength
    split <;> decide
  exact beq_iff_eq.1 (List.all_eq_true.1 hall entry h)

/-- The keyword that is written so, if there is one. -/
theorem ofText?_eq_some_iff : ofText? s = some keyword ↔ s = keyword.text.toList := by
  constructor
  · intro h
    rw [ofText?] at h
    split at h
    · obtain ⟨entry, hfound, rfl⟩ := Option.map_eq_some_iff.1 h
      have hentry := List.find?_some hfound
      rw [← text_of_mem_ofLength (List.mem_of_find?_eq_some hfound)]
      exact (beq_iff_eq.1 hentry).symm
    · cases h
  · rintro rfl
    exact keyword.ofText?_text

theorem mem_table_iff {text : String} :
    (text, keyword) ∈ table ↔ text.toList = keyword.text.toList := by
  rw [table, List.mem_map, String.toList_inj]
  constructor
  · rintro ⟨other, -, hentry⟩
    obtain ⟨rfl, rfl⟩ := Prod.mk.inj hentry
    rfl
  · rintro rfl
    exact ⟨keyword, keyword.mem_all, rfl⟩

/-! ## As bytes -/

/-- Keywords are words of lower-case letters. -/
theorem isLower_of_mem (keyword : Keyword) : ∀ c ∈ keyword.text.toList, c.isLower = true := by
  have hall : keyword.text.toList.all Char.isLower = true := by
    cases keyword <;> decide
  exact List.all_eq_true.1 hall

theorem length_text_le (keyword : Keyword) : keyword.text.toList.length ≤ maxLength := by
  cases keyword <;> decide

/-- Letters that have room in a row of bytes are all written, and leave what is behind them. -/
theorem overwrite_eq_some_iff {row written : List UInt8} (h : s.length ≤ row.length) :
    overwrite row s = some written ↔
      (∀ c ∈ s, c.toNat < 0x100) ∧
        written = s.map (fun c => UInt8.ofNat c.toNat) ++ row.drop s.length := by
  induction s generalizing row written with
  | nil => cases row <;> simp [overwrite, eq_comm]
  | cons c s ih =>
    cases row with
    | nil => exact absurd h (Nat.not_succ_le_zero _)
    | cons b row =>
      have hroom : s.length ≤ row.length := Nat.le_of_succ_le_succ h
      rw [overwrite, List.forall_mem_cons]
      split
      next hc =>
        rw [Option.map_eq_some_iff]
        constructor
        · rintro ⟨rest, hrest, rfl⟩
          obtain ⟨hs, rfl⟩ := (ih hroom).1 hrest
          exact ⟨⟨hc, hs⟩, rfl⟩
        · rintro ⟨⟨-, hs⟩, rfl⟩
          exact ⟨_, (ih hroom).2 ⟨hs, rfl⟩, rfl⟩
      next hc => exact ⟨fun h => absurd h (by simp), fun h => absurd h.1.1 hc⟩

/-- Bytes that are the numbers of codepoints tell the codepoints. -/
theorem map_ofNat_bytes (h : ∀ c ∈ s, c.toNat < 0x100) :
    (s.map fun c => UInt8.ofNat c.toNat).map (fun b => Char.ofNat b.toNat) = s := by
  rw [List.map_map]
  refine (List.map_congr_left fun c hc => ?_).trans s.map_id
  show Char.ofNat (UInt8.ofNat c.toNat).toNat = c
  rw [Text.Utf8.toNat_ofNat_of_lt (h c hc), Char.ofNat_toNat]

/-- **Letters are looked up as they are**: no keyword is too long for the row of bytes, and the row
adds nothing to a text that is shorter. -/
theorem ofLetters?_eq_some_iff : ofLetters? s = some keyword ↔ s = keyword.text.toList := by
  have hascii : ∀ c ∈ keyword.text.toList, c.toNat < 0x80 := fun c hc =>
    Text.toNat_lt_of_isLower (keyword.isLower_of_mem c hc)
  have hnumbers : ∀ c ∈ keyword.text.toList, c.toNat < 0x100 := fun c hc =>
    Nat.lt_trans (hascii c hc) (by decide)
  rw [ofLetters?]
  split
  next hlong =>
    refine ⟨fun h => absurd h (by simp), ?_⟩
    rintro rfl
    exact absurd keyword.length_text_le (Nat.not_le_of_lt hlong)
  next hroom =>
    have hroom : s.length ≤ (List.replicate maxLength (0 : UInt8)).length := by
      rw [List.length_replicate]
      exact Nat.le_of_not_lt hroom
    simp only [Option.bind_eq_some_iff, overwrite_eq_some_iff hroom, ofText?_eq_some_iff,
      Text.Utf8.decode?_eq_some_iff]
    constructor
    · rintro ⟨row, ⟨hbytes, rfl⟩, text, htext, rfl⟩
      rw [List.take_left' (List.length_map _), Text.Utf8.encode_of_ascii hascii] at htext
      rw [← map_ofNat_bytes hbytes, ← htext, map_ofNat_bytes hnumbers]
    · rintro rfl
      refine ⟨_, ⟨hnumbers, rfl⟩, _, ?_, rfl⟩
      rw [List.take_left' (List.length_map _), Text.Utf8.encode_of_ascii hascii]

theorem ofLetters?_eq (letters : List Char) : ofLetters? letters = ofText? letters :=
  Option.ext fun _ => ofLetters?_eq_some_iff.trans ofText?_eq_some_iff.symm

end Keyword

/-- **All lookups of keywords agree.** Whatever the text, it is looked up by its length in bytes to
the keyword that the table has behind it, and to none where the table does not have it. Whatever
run of codepoints is put into bytes to be looked up, the result is that of its text. -/
theorem keyword_lookups_agree :
    (∀ (text : String) (keyword : Keyword),
      Keyword.ofText? text.toList = some keyword ↔ (text, keyword) ∈ Keyword.table) ∧
    (∀ text : String,
      Keyword.isKeyword text.toList = true ↔ text ∈ Keyword.table.map Prod.fst) ∧
    ∀ letters : List Char, Keyword.ofLetters? letters = Keyword.ofText? letters := by
  have hlookup : ∀ (text : String) (keyword : Keyword),
      Keyword.ofText? text.toList = some keyword ↔ (text, keyword) ∈ Keyword.table :=
    fun text keyword => Keyword.ofText?_eq_some_iff.trans Keyword.mem_table_iff.symm
  refine ⟨hlookup, fun text => ?_, Keyword.ofLetters?_eq⟩
  rw [Keyword.isKeyword, Option.isSome_iff_exists, List.mem_map]
  constructor
  · rintro ⟨keyword, hfound⟩
    exact ⟨(text, keyword), (hlookup text keyword).1 hfound, rfl⟩
  · rintro ⟨⟨_, keyword⟩, hentry, rfl⟩
    exact ⟨keyword, (hlookup _ keyword).2 hentry⟩

end Lexis
