import Lexis.Command.Report

/-!
# Lines put together

- `Text.unlines_append`, `Text.unlines_flatMap`: lines that are made of several lists of lines.
- `Text.OneLine`, `Text.IsLines`: a text without a newline, and a text that is so many lines.
- `Text.IsLines.unique`: a text is lines in one way only.
- `Text.toList_spaces`, `Text.toList_toString`: what spaces and numbers are written with.
-/

namespace Lexis.Text

theorem unlines_singleton (line : String) : unlines [line] = line ++ "\n" := by
  rw [unlines, List.map_singleton, String.join_cons, String.join_nil, String.append_empty]

theorem unlines_append (lines more : List String) :
    unlines (lines ++ more) = unlines lines ++ unlines more := by
  rw [unlines, unlines, unlines, List.map_append, String.join_append]

/-- Several lists of lines are one text after the other. -/
theorem unlines_flatMap {α : Type} (f : α → List String) (items : List α) :
    unlines (items.flatMap f) = String.join (items.map fun item => unlines (f item)) := by
  induction items with
  | nil => rfl
  | cons item items ih =>
    rw [List.flatMap_cons, unlines_append, ih, List.map_cons, String.join_cons]

theorem toList_unlines_cons (line : String) (lines : List String) :
    (unlines (line :: lines)).toList = line.toList ++ '\n' :: (unlines lines).toList := by
  rw [← List.singleton_append, unlines_append, unlines_singleton, String.toList_append,
    String.toList_append, List.append_assoc]
  rfl

/-! ## Texts without a newline -/

/-- A text without a newline. -/
def OneLine (text : String) : Prop := '\n' ∉ text.toList

instance (text : String) : Decidable (OneLine text) :=
  inferInstanceAs (Decidable (¬ '\n' ∈ text.toList))

/-- A text is these lines: a newline ends each of them, and there is none inside one. -/
def IsLines (text : String) (lines : List String) : Prop :=
  text = unlines lines ∧ ∀ line ∈ lines, OneLine line

/-- What comes before the first separator of a text, and what comes after it. -/
theorem eq_of_append_cons_eq {separator : Char} {a b s t : List Char} (ha : separator ∉ a)
    (hb : separator ∉ b) (h : a ++ separator :: s = b ++ separator :: t) : a = b ∧ s = t := by
  induction a generalizing b with
  | nil =>
    cases b with
    | nil => exact ⟨rfl, (List.cons.inj h).2⟩
    | cons d b => exact absurd ((List.cons.inj h).1 ▸ List.mem_cons_self) hb
  | cons c a ih =>
    cases b with
    | nil => exact absurd ((List.cons.inj h).1 ▸ List.mem_cons_self) ha
    | cons d b =>
      obtain ⟨rfl, htail⟩ := List.cons.inj h
      obtain ⟨rfl, rfl⟩ := ih (fun hmem => ha (List.mem_cons_of_mem c hmem))
        (fun hmem => hb (List.mem_cons_of_mem c hmem)) htail
      exact ⟨rfl, rfl⟩

/-- **A text is lines in one way only.** -/
theorem IsLines.unique {text : String} {lines more : List String} (h : IsLines text lines)
    (h' : IsLines text more) : lines = more := by
  obtain ⟨rfl, hlines⟩ := h
  obtain ⟨heq, hmore⟩ := h'
  rw [← String.toList_inj] at heq
  induction lines generalizing more with
  | nil =>
    cases more with
    | nil => rfl
    | cons line more =>
      rw [toList_unlines_cons] at heq
      exact absurd heq.symm (List.append_ne_nil_of_right_ne_nil _ (List.cons_ne_nil _ _))
  | cons line lines ih =>
    cases more with
    | nil =>
      rw [toList_unlines_cons] at heq
      exact absurd heq (List.append_ne_nil_of_right_ne_nil _ (List.cons_ne_nil _ _))
    | cons other more =>
      obtain ⟨hline, hlines⟩ := List.forall_mem_cons.1 hlines
      obtain ⟨hother, hmore⟩ := List.forall_mem_cons.1 hmore
      rw [toList_unlines_cons, toList_unlines_cons] at heq
      obtain ⟨hfirst, hrest⟩ := eq_of_append_cons_eq hline hother heq
      rw [String.toList_inj.1 hfirst, ih hlines hrest hmore]

theorem oneLine_append_iff {s t : String} : OneLine (s ++ t) ↔ OneLine s ∧ OneLine t := by
  unfold OneLine
  rw [String.toList_append, List.mem_append, not_or]

theorem toList_spaces (n : Nat) : (spaces n).toList = List.replicate n ' ' :=
  String.toList_ofList

theorem oneLine_spaces (n : Nat) : OneLine (spaces n) := by
  unfold OneLine
  rw [toList_spaces]
  intro h
  exact absurd (List.eq_of_mem_replicate h) (by decide)

theorem toList_toString (n : Nat) : (toString n).toList = Nat.toDigits 10 n :=
  String.toList_ofList

theorem length_toString (n : Nat) : (toString n).length = (Nat.toDigits 10 n).length := by
  rw [← String.length_toList, toList_toString]

theorem not_mem_toDigits {c : Char} (h : c.isDigit = false) (n : Nat) : c ∉ Nat.toDigits 10 n := by
  intro hmem
  rw [Nat.isDigit_of_mem_toDigits (by decide) (by decide) hmem] at h
  cases h

theorem oneLine_toString (n : Nat) : OneLine (toString n) := by
  unfold OneLine
  rw [toList_toString]
  exact not_mem_toDigits (by decide) n

end Lexis.Text
