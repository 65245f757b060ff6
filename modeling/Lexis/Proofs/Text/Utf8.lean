import Lexis.Text.Utf8
import Lexis.Proofs.Text.Codepoint

/-!
# UTF-8 is read as it is written

- `Utf8.lead?_one` and its like: what leading bytes of one to four bytes call for.
- `Utf8.decodeHead_encodeChar`: the bytes of a codepoint are read as that codepoint.
- `Utf8.encodeChar_of_decodeHead`: no other bytes are.
- `Utf8.decode?_eq_some_iff`: decoding accepts exactly what encoding writes.
- `Utf8.encode_of_ascii`: codepoints of ASCII are written as their numbers.
-/

namespace Lexis.Text.Utf8

theorem toNat_ofNat_of_lt {n : Nat} (h : n < 256) : (UInt8.ofNat n).toNat = n := by
  rw [UInt8.toNat_ofNat']
  exact Nat.mod_eq_of_lt h

theorem ofNat_eq_of_toNat_eq {n : Nat} {b : UInt8} (h : b.toNat = n) : UInt8.ofNat n = b := by
  rw [← h, UInt8.ofNat_toNat]

/-! ## Continuation bytes -/

section Tails

variable {value low high tails n : Nat} {bytes after : List UInt8}

/-- One continuation byte is read, and then the others. -/
theorem decodeTails_succ_iff :
    decodeTails value low high (tails + 1) bytes = (some n, after) ↔
      ∃ b rest, bytes = b :: rest ∧ (low ≤ b.toNat ∧ b.toNat ≤ high) ∧
        decodeTails (value * 0x40 + (b.toNat - 0x80)) 0x80 0xbf tails rest = (some n, after) := by
  cases bytes with
  | nil => simp [decodeTails]
  | cons b rest =>
    rw [decodeTails]
    constructor
    · intro h
      split at h
      next hb => exact ⟨b, rest, rfl, hb, h⟩
      · exact absurd h (by simp)
    · rintro ⟨b', rest', hcons, hb, h⟩
      obtain ⟨rfl, rfl⟩ := List.cons.inj hcons
      rw [if_pos hb, h]

theorem decodeTails_zero_iff :
    decodeTails value low high 0 bytes = (some n, after) ↔ value = n ∧ bytes = after := by
  simp [decodeTails]

end Tails

/-! ## Leading bytes -/

section Leads

variable {m : Nat}

theorem lead?_one (h : m < 0x80) : lead? m = some ⟨m, 0, 0x80, 0xbf⟩ := if_pos h

theorem lead?_two (h : 0xc2 ≤ m ∧ m < 0xe0) : lead? m = some ⟨m - 0xc0, 1, 0x80, 0xbf⟩ := by
  rw [lead?, if_neg (by omega), if_neg (by omega), if_pos h.2]

/-- After `e0` an overlong form is ruled out, and after `ed` a surrogate. -/
theorem exists_lead?_three (h : 0xe0 ≤ m ∧ m < 0xf0) :
    ∃ low high, lead? m = some ⟨m - 0xe0, 2, low, high⟩ ∧ ∀ t, (low ≤ t ∧ t ≤ high) ↔
      (0x80 ≤ t ∧ t ≤ 0xbf) ∧ (m = 0xe0 → 0xa0 ≤ t) ∧ (m = 0xed → t ≤ 0x9f) := by
  rw [lead?, if_neg (by omega), if_neg (by omega), if_neg (by omega)]
  split
  next hm => exact ⟨0xa0, 0xbf, by rw [hm], by omega⟩
  split
  next hm => exact ⟨0x80, 0x9f, by rw [hm], by omega⟩
  rw [if_pos h.2]
  exact ⟨0x80, 0xbf, rfl, by omega⟩

/-- After `f0` an overlong form is ruled out, and after `f4` a number above `10ffff`. -/
theorem exists_lead?_four (h : 0xf0 ≤ m ∧ m < 0xf5) :
    ∃ low high, lead? m = some ⟨m - 0xf0, 3, low, high⟩ ∧ ∀ t, (low ≤ t ∧ t ≤ high) ↔
      (0x80 ≤ t ∧ t ≤ 0xbf) ∧ (m = 0xf0 → 0x90 ≤ t) ∧ (m = 0xf4 → t ≤ 0x8f) := by
  rw [lead?, if_neg (by omega), if_neg (by omega), if_neg (by omega), if_neg (by omega),
    if_neg (by omega), if_neg (by omega)]
  split
  next hm => exact ⟨0x90, 0xbf, by rw [hm], by omega⟩
  split
  next hm => exact ⟨0x80, 0xbf, rfl, by omega⟩
  rw [if_pos (by omega)]
  exact ⟨0x80, 0x8f, by rw [show m = 0xf4 by omega], by omega⟩

theorem lead?_eq_none (h : (0x80 ≤ m ∧ m < 0xc2) ∨ 0xf5 ≤ m) : lead? m = none := by
  rw [lead?, if_neg (by omega)]
  split
  · rfl
  · rw [if_neg (by omega), if_neg (by omega), if_neg (by omega), if_neg (by omega),
      if_neg (by omega), if_neg (by omega), if_neg (by omega)]

end Leads

/-! ## Codepoints -/

/-- A codepoint is read where the leading byte calls for just the continuation bytes after it. -/
theorem decodeHead_eq_some_iff {b : UInt8} {rest after : List UInt8} {c : Char} :
    decodeHead b rest = (some c, after) ↔
      ∃ value tails low high n, lead? b.toNat = some ⟨value, tails, low, high⟩ ∧
        decodeTails value low high tails rest = (some n, after) ∧ Char.ofNat n = c := by
  rw [decodeHead]
  cases hlead : lead? b.toNat with
  | none => simp
  | some lead =>
    obtain ⟨value, tails, low, high⟩ := lead
    cases htails : decodeTails value low high tails rest with
    | mk found after' =>
      simp only [htails, Prod.mk.injEq, Option.map_eq_some_iff]
      constructor
      · rintro ⟨⟨n, rfl, hc⟩, rfl⟩
        exact ⟨value, tails, low, high, n, rfl, htails, hc⟩
      · rintro ⟨value', tails', low', high', n, hlead', h, hc⟩
        obtain ⟨rfl, rfl, rfl, rfl⟩ := Lead.mk.inj (Option.some.inj hlead')
        rw [htails] at h
        obtain ⟨rfl, rfl⟩ := Prod.mk.inj h
        exact ⟨⟨n, rfl, hc⟩, rfl⟩

/-- **The bytes of a codepoint are read as that codepoint**, whatever follows them. -/
theorem decodeHead_encodeChar (c : Char) (rest : List UInt8) :
    ∃ b tail, encodeChar c = b :: tail ∧ decodeHead b (tail ++ rest) = (some c, rest) := by
  have hc : c.toNat < 0xd800 ∨ 0xdfff < c.toNat ∧ c.toNat < 0x110000 := c.valid
  have hof : Char.ofNat c.toNat = c := Char.ofNat_toNat c
  have hbyte : ∀ n, n < 256 → (UInt8.ofNat n).toNat = n := fun n hn => toNat_ofNat_of_lt hn
  unfold encodeChar
  generalize c.toNat = n at hc hof ⊢
  simp only [Nat.div_one]
  -- the number of bytes goes by the size of the number
  split
  next h1 =>
    refine ⟨_, _, rfl, decodeHead_eq_some_iff.2 ⟨n, 0, 0x80, 0xbf, n, ?_, ?_, hof⟩⟩
    · rw [hbyte n (by omega), lead?_one h1]
    · exact decodeTails_zero_iff.2 ⟨rfl, rfl⟩
  split
  next h1 h2 =>
    refine ⟨_, _, rfl, decodeHead_eq_some_iff.2
      ⟨0xc0 + n / 0x40 - 0xc0, 1, 0x80, 0xbf, n, ?_, ?_, hof⟩⟩
    · rw [hbyte _ (by omega), lead?_two (by omega)]
    · refine decodeTails_succ_iff.2 ⟨_, _, rfl, ?_, decodeTails_zero_iff.2 ⟨?_, rfl⟩⟩
      · rw [hbyte _ (by omega)]
        omega
      · rw [hbyte _ (by omega)]
        omega
  split
  next h1 h2 h3 =>
    -- the first continuation byte has bounds of its own, against overlong forms
    obtain ⟨low, high, hlead, hbounds⟩ := exists_lead?_three (m := 0xe0 + n / 0x1000) (by omega)
    refine ⟨_, _, rfl, decodeHead_eq_some_iff.2
      ⟨0xe0 + n / 0x1000 - 0xe0, 2, low, high, n, ?_, ?_, hof⟩⟩
    · rw [hbyte _ (by omega), hlead]
    · refine decodeTails_succ_iff.2 ⟨_, _, rfl, (hbounds _).2 ?_,
        decodeTails_succ_iff.2 ⟨_, _, rfl, ?_, decodeTails_zero_iff.2 ⟨?_, rfl⟩⟩⟩
      · rw [hbyte _ (by omega)]
        omega
      · rw [hbyte _ (by omega)]
        omega
      · rw [hbyte _ (by omega), hbyte _ (by omega)]
        omega
  next h1 h2 h3 =>
    obtain ⟨low, high, hlead, hbounds⟩ := exists_lead?_four (m := 0xf0 + n / 0x40000) (by omega)
    refine ⟨_, _, rfl, decodeHead_eq_some_iff.2
      ⟨0xf0 + n / 0x40000 - 0xf0, 3, low, high, n, ?_, ?_, hof⟩⟩
    · rw [hbyte _ (by omega), hlead]
    · refine decodeTails_succ_iff.2 ⟨_, _, rfl, (hbounds _).2 ?_,
        decodeTails_succ_iff.2 ⟨_, _, rfl, ?_,
          decodeTails_succ_iff.2 ⟨_, _, rfl, ?_, decodeTails_zero_iff.2 ⟨?_, rfl⟩⟩⟩⟩
      · rw [hbyte _ (by omega)]
        omega
      · rw [hbyte _ (by omega)]
        omega
      · rw [hbyte _ (by omega)]
        omega
      · rw [hbyte _ (by omega), hbyte _ (by omega), hbyte _ (by omega)]
        omega

/-- **No other bytes are read as a codepoint.** -/
theorem encodeChar_of_decodeHead {b : UInt8} {rest after : List UInt8} {c : Char}
    (h : decodeHead b rest = (some c, after)) : b :: rest = encodeChar c ++ after := by
  obtain ⟨value, tails, low, high, n, hlead, htails, rfl⟩ := decodeHead_eq_some_iff.1 h
  have hb := b.toNat_lt
  -- the leading byte tells how many bytes there are
  by_cases h1 : b.toNat < 0x80
  · rw [lead?_one h1] at hlead
    obtain ⟨rfl, rfl, rfl, rfl⟩ := Lead.mk.inj (Option.some.inj hlead)
    obtain ⟨rfl, rfl⟩ := decodeTails_zero_iff.1 htails
    have hn : (Char.ofNat b.toNat).toNat = b.toNat := toNat_ofNat_of_isValidChar (by left; omega)
    simp only [encodeChar, hn, if_pos h1, UInt8.ofNat_toNat]
    rfl
  by_cases h2 : 0xc2 ≤ b.toNat ∧ b.toNat < 0xe0
  · rw [lead?_two h2] at hlead
    obtain ⟨rfl, rfl, rfl, rfl⟩ := Lead.mk.inj (Option.some.inj hlead)
    obtain ⟨t, rest, rfl, ht, htails⟩ := decodeTails_succ_iff.1 htails
    obtain ⟨rfl, rfl⟩ := decodeTails_zero_iff.1 htails
    generalize hn : (b.toNat - 0xc0) * 0x40 + (t.toNat - 0x80) = n
    -- two bytes make no number as large as a surrogate
    have hn' : (Char.ofNat n).toNat = n := toNat_ofNat_of_isValidChar (by left; omega)
    simp only [encodeChar, hn']
    rw [if_neg (by omega), if_pos (by omega), ofNat_eq_of_toNat_eq (b := b) (by omega),
      ofNat_eq_of_toNat_eq (b := t) (by omega)]
    rfl
  by_cases h3 : 0xe0 ≤ b.toNat ∧ b.toNat < 0xf0
  · obtain ⟨low', high', hlead', hbounds⟩ := exists_lead?_three h3
    rw [hlead'] at hlead
    obtain ⟨rfl, rfl, rfl, rfl⟩ := Lead.mk.inj (Option.some.inj hlead)
    obtain ⟨t, rest, rfl, ht, htails⟩ := decodeTails_succ_iff.1 htails
    obtain ⟨u, rest, rfl, hu, htails⟩ := decodeTails_succ_iff.1 htails
    obtain ⟨rfl, rfl⟩ := decodeTails_zero_iff.1 htails
    -- the bounds of the second byte leave out surrogates
    rw [hbounds] at ht
    generalize hn : ((b.toNat - 0xe0) * 0x40 + (t.toNat - 0x80)) * 0x40 + (u.toNat - 0x80) = n
    have hn' : (Char.ofNat n).toNat = n :=
      toNat_ofNat_of_isValidChar (by rw [Nat.isValidChar]; omega)
    simp only [encodeChar, hn']
    rw [if_neg (by omega), if_neg (by omega), if_pos (by omega),
      ofNat_eq_of_toNat_eq (b := b) (by omega), ofNat_eq_of_toNat_eq (b := t) (by omega),
      ofNat_eq_of_toNat_eq (b := u) (by omega)]
    rfl
  by_cases h4 : 0xf0 ≤ b.toNat ∧ b.toNat < 0xf5
  · obtain ⟨low', high', hlead', hbounds⟩ := exists_lead?_four h4
    rw [hlead'] at hlead
    obtain ⟨rfl, rfl, rfl, rfl⟩ := Lead.mk.inj (Option.some.inj hlead)
    obtain ⟨t, rest, rfl, ht, htails⟩ := decodeTails_succ_iff.1 htails
    obtain ⟨u, rest, rfl, hu, htails⟩ := decodeTails_succ_iff.1 htails
    obtain ⟨v, rest, rfl, hv, htails⟩ := decodeTails_succ_iff.1 htails
    obtain ⟨rfl, rfl⟩ := decodeTails_zero_iff.1 htails
    -- and here what is above the last codepoint
    rw [hbounds] at ht
    generalize hn : (((b.toNat - 0xf0) * 0x40 + (t.toNat - 0x80)) * 0x40 + (u.toNat - 0x80)) * 0x40
      + (v.toNat - 0x80) = n
    have hn' : (Char.ofNat n).toNat = n :=
      toNat_ofNat_of_isValidChar (by rw [Nat.isValidChar]; omega)
    simp only [encodeChar, hn']
    rw [if_neg (by omega), if_neg (by omega), if_neg (by omega),
      ofNat_eq_of_toNat_eq (b := b) (by omega), ofNat_eq_of_toNat_eq (b := t) (by omega),
      ofNat_eq_of_toNat_eq (b := u) (by omega), ofNat_eq_of_toNat_eq (b := v) (by omega)]
    rfl
  · rw [lead?_eq_none (by omega)] at hlead
    exact absurd hlead (by simp)

/-! ## Texts -/

theorem decode?_cons (b : UInt8) (rest : List UInt8) :
    decode? (b :: rest) =
      (decodeHead b rest).1.bind fun c => (decode? (decodeHead b rest).2).map (c :: ·) := by
  rw [decode?, decodeParts, List.mapM_cons, id]
  cases (decodeHead b rest).1 with
  | none => rfl
  | some c =>
    rw [decode?]
    cases (decodeParts (decodeHead b rest).2).mapM id <;> rfl

theorem decode?_encodeChar_append (c : Char) (rest : List UInt8) :
    decode? (encodeChar c ++ rest) = (decode? rest).map (c :: ·) := by
  obtain ⟨b, tail, henc, hread⟩ := decodeHead_encodeChar c rest
  rw [henc, List.cons_append, decode?_cons, hread]
  rfl

theorem decode?_nil : decode? [] = some [] := by
  rw [decode?, decodeParts]
  rfl

theorem decode?_encode (text : List Char) : decode? (encode text) = some text := by
  induction text with
  | nil => exact decode?_nil
  | cons c text ih =>
    rw [encode, List.flatMap_cons, decode?_encodeChar_append, ← encode, ih]
    rfl

theorem encode_of_decode? {bytes : List UInt8} {text : List Char}
    (h : decode? bytes = some text) : encode text = bytes := by
  -- what follows a codepoint is shorter, so the induction is on the number of bytes
  generalize hn : bytes.length = n
  induction n using Nat.strongRecOn generalizing bytes text with
  | ind n ih =>
    cases bytes with
    | nil =>
      rw [decode?_nil] at h
      rw [← Option.some.inj h]
      rfl
    | cons b rest =>
      rw [decode?_cons, Option.bind_eq_some_iff] at h
      obtain ⟨c, hc, h⟩ := h
      obtain ⟨more, hmore, rfl⟩ := Option.map_eq_some_iff.1 h
      have hlt := length_decodeHead_le b rest
      rw [List.length_cons] at hn
      have hafter := ih (decodeHead b rest).2.length (by omega) hmore rfl
      have hhead : decodeHead b rest = (some c, encode more) := Prod.ext hc hafter.symm
      rw [encodeChar_of_decodeHead hhead]
      exact List.flatMap_cons

/-- **Decoding accepts exactly what encoding writes.** -/
theorem decode?_eq_some_iff {bytes : List UInt8} {text : List Char} :
    decode? bytes = some text ↔ encode text = bytes :=
  ⟨encode_of_decode?, fun h => h ▸ decode?_encode text⟩

theorem encode_injective : Function.Injective encode := by
  intro a b h
  rw [← Option.some.injEq, ← decode?_encode a, h, decode?_encode]

/-- A codepoint of ASCII is written with one byte, its number. -/
theorem encode_of_ascii {text : List Char} (h : ∀ c ∈ text, c.toNat < 0x80) :
    encode text = text.map fun c => UInt8.ofNat c.toNat := by
  induction text with
  | nil => rfl
  | cons c text ih =>
    obtain ⟨hc, htext⟩ := List.forall_mem_cons.1 h
    have hchar : encodeChar c = [UInt8.ofNat c.toNat] := if_pos hc
    rw [encode, List.flatMap_cons, ← encode, hchar, ih htext]
    rfl

end Lexis.Text.Utf8
