import Mathlib.Data.List.Basic
import Mathlib.Data.List.TakeWhile
import Lexis.File.System

/-!
# Paths of entries

Below a directory a path is the directory's with the names on the way added one after the other.
What it says and what is to be followed end with those names, so paths below one directory compare
as the names do.

- `FileName.ofBytes_bytes`: the name of an entry says neither `.` nor `..`.
- `Path.exists_segments_join`: a slash at the end of the directory's path makes no difference.
- `Path.components_join`, `Path.exists_steps_join`: what the path of an entry says, and what is
  followed to open it.
- `Path.joinAll`: the path below a directory that names lead to; `Path.components_joinAll`,
  `Path.exists_steps_joinAll`, `Path.order_joinAll`.
- `Path.fault?_eq_none_iff`: the paths that may be asked about.
- `Path.cutExtension_eq_iff`: a name with an extension is a stem, a full stop and the extension.
-/

namespace Lexis

/-! ## Names of entries -/

namespace FileName

variable (name : FileName)

theorem isFileName_iff {bytes : List UInt8} :
    isFileName bytes = true ↔ bytes ≠ [] ∧ bytes.length ≤ 255 ∧ slash ∉ bytes ∧ 0 ∉ bytes
      ∧ bytes ≠ [fullStop] ∧ bytes ≠ [fullStop, fullStop] := by
  simp only [isFileName, Bool.and_eq_true, Bool.not_eq_true', List.isEmpty_eq_false_iff,
    decide_eq_true_eq, List.contains_eq_mem, decide_eq_false_iff_not, bne_iff_ne, and_assoc]

/-- The name that a text writes. -/
def ofText (text : List Char) (valid : isFileName (Text.Utf8.encode text) = true) : FileName :=
  ⟨Text.Utf8.encode text, valid⟩

theorem length_le : name.bytes.length ≤ 255 := (isFileName_iff.1 name.valid).2.1

theorem slash_not_mem : slash ∉ name.bytes := (isFileName_iff.1 name.valid).2.2.1

theorem null_not_mem : 0 ∉ name.bytes := (isFileName_iff.1 name.valid).2.2.2.1

@[ext] theorem ext {a b : FileName} (h : a.bytes = b.bytes) : a = b := by
  cases a
  cases b
  cases h
  rfl

/-- The name of an entry says no more and no less than itself. -/
theorem ofBytes_bytes : Component.ofBytes name.bytes = .name name.bytes := by
  obtain ⟨hnil, -, -, -, hhere, hparent⟩ := isFileName_iff.1 name.valid
  rw [Component.ofBytes, if_neg (not_or.2 ⟨hnil, hhere⟩), if_neg hparent]

/-- The step that the name of an entry is. -/
def component : Component := .name name.bytes

theorem component_ne_here : name.component ≠ .here := Component.noConfusion

end FileName

/-! ## Orders -/

section Orders

variable {β γ : Type} {cmp : β → β → Ordering}

/-- What is compared by a part of it compares as that part does. -/
theorem transCmp_map [Std.TransCmp cmp] (f : γ → β) :
    Std.TransCmp fun a b => cmp (f a) (f b) where
  eq_swap := Std.OrientedCmp.eq_swap
  isLE_trans := Std.TransCmp.isLE_trans

/-- What is sorted is ascending. -/
theorem pairwise_mergeSort [Std.TransCmp cmp] (l : List β) :
    (l.mergeSort fun a b => (cmp a b).isLE).Pairwise fun a b => (cmp a b).isLE = true := by
  refine List.pairwise_mergeSort (fun a b c => Std.TransCmp.isLE_trans) (fun a b => ?_) l
  by_cases hle : (cmp a b).isLE = true
  · rw [hle, Bool.true_or]
  · have hlt : cmp b a = .lt := Std.OrientedCmp.lt_of_not_isLE hle
    rw [hlt]
    exact Bool.or_true _

/-- Lists that begin alike compare as what follows does. -/
theorem compareLex_append_left [Std.ReflCmp cmp] (front a b : List β) :
    List.compareLex cmp (front ++ a) (front ++ b) = List.compareLex cmp a b := by
  induction front with
  | nil => rfl
  | cons x front ih =>
    have hself : cmp x x = .eq := Std.ReflCmp.compare_self
    rw [List.cons_append, List.cons_append, List.compareLex_cons_cons, hself, ih]
    rfl

theorem compareLex_map {other : γ → γ → Ordering} {f : β → γ}
    (hf : ∀ a b, other (f a) (f b) = cmp a b) (a b : List β) :
    List.compareLex other (a.map f) (b.map f) = List.compareLex cmp a b := by
  induction a generalizing b with
  | nil => cases b <;> rfl
  | cons x a ih =>
    cases b with
    | nil => rfl
    | cons y b =>
      rw [List.map_cons, List.map_cons, List.compareLex_cons_cons, List.compareLex_cons_cons, hf,
        ih]

end Orders

instance : Std.TransCmp FileName.order := transCmp_map FileName.bytes

instance : Std.LawfulEqCmp FileName.order where
  compare_self {name} := by
    show List.compareLex compare name.bytes name.bytes = .eq
    exact Std.ReflCmp.compare_self
  eq_of_compare {a b} h := by
    have hbytes : List.compareLex compare a.bytes b.bytes = .eq := h
    exact FileName.ext (Std.LawfulEqCmp.eq_of_compare hbytes)

theorem FileName.order_self (name : FileName) : name.order name = .eq := Std.ReflCmp.compare_self

namespace Component

theorem order_component (a b : FileName) : order a.component b.component = a.order b := rfl

instance : Std.TransCmp order where
  eq_swap {a b} := by
    cases a with
    | name bytes =>
      cases b with
      | name other =>
        show List.compareLex compare bytes other = (List.compareLex compare other bytes).swap
        exact Std.OrientedCmp.eq_swap
      | _ => rfl
    | _ => cases b <;> rfl
  isLE_trans {a b c} hab hbc := by
    cases a with
    | name bytes =>
      cases b with
      | name other =>
        cases c with
        | name third =>
          have hfirst : (List.compareLex compare bytes other).isLE = true := hab
          have hsecond : (List.compareLex compare other third).isLE = true := hbc
          show (List.compareLex compare bytes third).isLE = true
          exact Std.TransCmp.isLE_trans hfirst hsecond
        | _ => exact hbc
      | _ => exact absurd hab Bool.false_ne_true
    | _ =>
      cases c with
      | name third => rfl
      | _ => cases b <;> first | exact hbc | exact hab

end Component

namespace Path

/-! ## Segments -/

theorem segments_ne_nil (bytes : List UInt8) : segments bytes ≠ [] := by
  cases bytes with
  | nil => exact List.cons_ne_nil _ _
  | cons b rest =>
    rw [segments]
    split
    · exact List.cons_ne_nil _ _
    · split <;> exact List.cons_ne_nil _ _

/-- What follows a slash is cut by itself. -/
theorem segments_append_slash (before after : List UInt8) :
    segments (before ++ slash :: after) = segments before ++ segments after := by
  induction before with
  | nil => simp [segments]
  | cons b before ih =>
    rw [List.cons_append, segments, segments, ih]
    split
    · rfl
    · cases h : segments before with
      | nil => exact absurd h (segments_ne_nil before)
      | cons first more => rfl

theorem segments_of_not_mem {bytes : List UInt8} (h : slash ∉ bytes) :
    segments bytes = [bytes] := by
  induction bytes with
  | nil => rfl
  | cons b rest ih =>
    obtain ⟨hb, hrest⟩ := not_or.1 fun hmem => h (List.mem_cons.2 hmem)
    rw [segments, if_neg (Ne.symm hb), ih hrest]

variable (path : Path) (name : FileName)

/-- The three ways to add a name: to no path, after a slash, and with a slash. -/
theorem join_cases :
    (path.bytes = [] ∧ (path.join name).bytes = name.bytes)
      ∨ (∃ before, path.bytes = before ++ [slash]
        ∧ (path.join name).bytes = before ++ slash :: name.bytes)
      ∨ (path.bytes ≠ [] ∧ (path.join name).bytes = path.bytes ++ slash :: name.bytes) := by
  rcases List.eq_nil_or_concat' path.bytes with hnil | ⟨before, last, hlast⟩
  · exact .inl ⟨hnil, by simp [join, hnil]⟩
  · by_cases hslash : last = slash
    · exact .inr (.inl ⟨before, by rw [hlast, hslash], by simp [join, hlast, hslash]⟩)
    · exact .inr (.inr ⟨by simp [hlast], by simp [join, hlast, hslash]⟩)

/-- The path of an entry is cut as its directory's, less nothing between the last slash and the end,
and then the name. -/
theorem exists_segments_join :
    ∃ front, (segments path.bytes = front ∨ segments path.bytes = front ++ [[]])
      ∧ segments (path.join name).bytes = front ++ [name.bytes] := by
  have hname := segments_of_not_mem name.slash_not_mem
  rcases path.join_cases name with ⟨hpath, hjoin⟩ | ⟨before, hpath, hjoin⟩ | ⟨-, hjoin⟩
  · refine ⟨[], .inr (by rw [hpath]; rfl), ?_⟩
    rw [hjoin, hname, List.nil_append]
  · refine ⟨segments before, .inr (by rw [hpath, segments_append_slash]; rfl), ?_⟩
    rw [hjoin, segments_append_slash, hname]
  · refine ⟨segments path.bytes, .inl rfl, ?_⟩
    rw [hjoin, segments_append_slash, hname]

theorem join_bytes_ne_nil : (path.join name).bytes ≠ [] := by
  have h := path.length_lt_join name
  exact List.ne_nil_of_length_pos (by omega)

/-- With a slash between them or without, a path and a name make the path of the entry. -/
theorem length_join_bounds :
    path.bytes.length + name.bytes.length ≤ (path.join name).bytes.length
      ∧ (path.join name).bytes.length ≤ path.bytes.length + 1 + name.bytes.length := by
  rcases path.join_cases name with ⟨hpath, hjoin⟩ | ⟨before, hpath, hjoin⟩ | ⟨-, hjoin⟩
  · rw [hpath, hjoin, List.length_nil]
    omega
  · rw [hpath, hjoin]
    simp only [List.length_append, List.length_cons, List.length_nil]
    omega
  · rw [hjoin, List.length_append, List.length_cons]
    omega

theorem isAbsolute_join : (path.join name).isAbsolute = path.isAbsolute := by
  rcases path.join_cases name with ⟨hpath, hjoin⟩ | ⟨before, hpath, hjoin⟩ | ⟨hpath, hjoin⟩
  · have hslash := name.slash_not_mem
    rw [isAbsolute, isAbsolute, hjoin, hpath]
    cases hbytes : name.bytes with
    | nil => rfl
    | cons b rest =>
      rw [hbytes] at hslash
      simp [Ne.symm (List.ne_of_not_mem_cons hslash)]
  · rw [isAbsolute, isAbsolute, hjoin, hpath]
    cases before <;> rfl
  · rw [isAbsolute, isAbsolute, hjoin]
    cases hbytes : path.bytes with
    | nil => exact absurd hbytes hpath
    | cons b rest => rfl

/-! ## What a path says and what is followed -/

/-- What a path says that is not empty: its beginning, and the rest without full stops. -/
theorem components_eq_cons {path : Path} (hpath : path.bytes ≠ []) {first : List UInt8}
    {more : List (List UInt8)} (h : segments path.bytes = first :: more) :
    path.components = (if path.isAbsolute then .root else Component.ofBytes first)
      :: (more.map Component.ofBytes).filter (· ≠ .here) := by
  have hempty : path.bytes.isEmpty = false := List.isEmpty_eq_false_iff.2 hpath
  rw [components, h, List.map_cons, hempty]
  cases path.isAbsolute <;> rfl

/-- The path of an entry says what its directory's says, and then the name. -/
theorem components_join :
    (path.join name).components = path.components ++ [name.component] := by
  have hjoined := path.join_bytes_ne_nil name
  have habsolute := path.isAbsolute_join name
  have hname := segments_of_not_mem name.slash_not_mem
  have hfilter : ([name.bytes].map Component.ofBytes).filter (· ≠ .here) = [name.component] := by
    rw [List.map_singleton, name.ofBytes_bytes]
    rfl
  -- the path is empty, or has a slash at its end, or gets one
  rcases path.join_cases name with ⟨hpath, hjoin⟩ | ⟨before, hpath, hjoin⟩ | ⟨hpath, hjoin⟩
  · have hsegments : segments (path.join name).bytes = [name.bytes] := by rw [hjoin, hname]
    have hrelative : path.isAbsolute = false := by rw [isAbsolute, hpath]; rfl
    have hnone : path.components = [] := by
      rw [components, hrelative, hpath]
      rfl
    rw [components_eq_cons hjoined hsegments, habsolute, hrelative, hnone, name.ofBytes_bytes]
    rfl
  · obtain ⟨first, more, hbefore⟩ := List.exists_cons_of_ne_nil (segments_ne_nil before)
    have hsegments : segments path.bytes = first :: (more ++ [[]]) := by
      rw [hpath, segments_append_slash, hbefore]
      rfl
    have hsegmentsJoin : segments (path.join name).bytes = first :: (more ++ [name.bytes]) := by
      rw [hjoin, segments_append_slash, hbefore, hname]
      rfl
    rw [components_eq_cons hjoined hsegmentsJoin, components_eq_cons (by simp [hpath]) hsegments,
      habsolute, List.map_append, List.map_append, List.filter_append, List.filter_append, hfilter]
    -- the empty segment behind the last slash is none of the components
    have hnothing : ([[]].map Component.ofBytes).filter (· ≠ .here) = [] := rfl
    rw [hnothing, List.append_nil, List.cons_append]
  · obtain ⟨first, more, hsegments⟩ := List.exists_cons_of_ne_nil (segments_ne_nil path.bytes)
    have hsegmentsJoin : segments (path.join name).bytes = first :: (more ++ [name.bytes]) := by
      rw [hjoin, segments_append_slash, hsegments, hname]
      rfl
    rw [components_eq_cons hjoined hsegmentsJoin, components_eq_cons hpath hsegments, habsolute,
      List.map_append, List.filter_append, hfilter, List.cons_append]

/-- What is followed to open an entry is what is followed to open its directory, and then the name;
a slash that the directory's path ends with is not a step before the name. -/
theorem exists_steps_join :
    ∃ front, (path.steps = front ∨ path.steps = front ++ [.here])
      ∧ (path.join name).steps = front ++ [name.component] := by
  obtain ⟨front, hpath, hjoin⟩ := path.exists_segments_join name
  refine ⟨(if path.isAbsolute then [.root] else []) ++ front.map Component.ofBytes, ?_, ?_⟩
  · refine hpath.imp (fun h => ?_) (fun h => ?_)
    · rw [steps, h]
      cases path.isAbsolute <;> rfl
    · rw [steps, h, List.map_append]
      cases path.isAbsolute <;> rfl
  · rw [steps, hjoin, isAbsolute_join, List.map_append, List.map_singleton, name.ofBytes_bytes]
    cases path.isAbsolute <;> rfl

theorem fileName?_join : (path.join name).fileName? = some name.bytes := by
  rw [fileName?, components_join, List.getLast?_concat]
  rfl

theorem stem?_join : (path.join name).stem? = some (cutExtension name.bytes).1 := by
  rw [stem?, fileName?_join]
  rfl

theorem extension?_join : (path.join name).extension? = (cutExtension name.bytes).2 := by
  rw [extension?, fileName?_join]
  rfl

/-! ## Paths that may be asked about -/

theorem fault?_eq_none_iff {path : Path} :
    path.fault? = none ↔ 0 ∉ path.bytes ∧ path.bytes.length < lengthLimit := by
  rw [fault?, List.contains_eq_mem]
  by_cases hnull : 0 ∈ path.bytes
  · simp [hnull]
  · by_cases hlength : lengthLimit ≤ path.bytes.length
    · simp [hnull, hlength]
    · simp [hnull, hlength, Nat.lt_of_not_le hlength]

theorem null_mem_join_iff : 0 ∈ (path.join name).bytes ↔ 0 ∈ path.bytes := by
  have hname := name.null_not_mem
  have hslash : (0 : UInt8) ≠ slash := by decide
  rcases path.join_cases name with ⟨hpath, hjoin⟩ | ⟨before, hpath, hjoin⟩ | ⟨-, hjoin⟩
  · simp [hpath, hjoin, hname]
  · simp [hpath, hjoin, hname, hslash]
  · simp [hjoin, hname, hslash]

/-! ## Paths of names below a directory -/

/-- The path below a directory that names lead to, the first name first. -/
def joinAll (path : Path) (names : List FileName) : Path := names.foldl join path

variable (names : List FileName)

@[simp] theorem joinAll_nil : path.joinAll [] = path := rfl

@[simp] theorem joinAll_cons : path.joinAll (name :: names) = (path.join name).joinAll names := rfl

theorem joinAll_append (more : List FileName) :
    path.joinAll (names ++ more) = (path.joinAll names).joinAll more :=
  List.foldl_append

theorem components_joinAll :
    (path.joinAll names).components = path.components ++ names.map FileName.component := by
  induction names generalizing path with
  | nil => exact (List.append_nil _).symm
  | cons name names ih => rw [joinAll_cons, ih, components_join, List.append_assoc]; rfl

theorem length_le_joinAll : path.bytes.length ≤ (path.joinAll names).bytes.length := by
  induction names generalizing path with
  | nil => exact Nat.le_refl _
  | cons name names ih => exact Nat.le_trans (Nat.le_of_lt (path.length_lt_join name)) (ih _)

theorem null_mem_joinAll_iff : 0 ∈ (path.joinAll names).bytes ↔ 0 ∈ path.bytes := by
  induction names generalizing path with
  | nil => exact Iff.rfl
  | cons name names ih => rw [joinAll_cons, ih, null_mem_join_iff]

/-- Below a path that ends with a name, the names that lead on are further steps. -/
theorem steps_joinAll_of_steps {path : Path} {front : List Component} {name : FileName}
    (h : path.steps = front ++ [name.component]) :
    (path.joinAll names).steps = path.steps ++ names.map FileName.component := by
  induction names generalizing path front name with
  | nil => exact (List.append_nil _).symm
  | cons next names ih =>
    obtain ⟨before, hpath, hjoin⟩ := path.exists_steps_join next
    have hbefore : path.steps = before := by
      refine hpath.resolve_right fun hhere => ?_
      have hlast := List.append_inj_right' (h.symm.trans hhere) rfl
      exact name.component_ne_here (List.head_eq_of_cons_eq hlast)
    rw [joinAll_cons, ih hjoin, hjoin, hbefore, List.append_assoc]
    rfl

/-- What is followed below a directory: what opens the directory, and then the names. -/
theorem exists_steps_joinAll :
    ∃ front, (path.steps = front ∨ path.steps = front ++ [.here])
      ∧ (names ≠ [] → (path.joinAll names).steps = front ++ names.map FileName.component) := by
  cases names with
  | nil => exact ⟨path.steps, .inl rfl, fun h => absurd rfl h⟩
  | cons name names =>
    obtain ⟨front, hpath, hjoin⟩ := path.exists_steps_join name
    refine ⟨front, hpath, fun _ => ?_⟩
    rw [joinAll_cons, steps_joinAll_of_steps names hjoin, hjoin, List.append_assoc]
    rfl

/-- Paths below one directory compare as the names that lead to them, name by name. -/
theorem order_joinAll (a b : List FileName) :
    (path.joinAll a).order (path.joinAll b) = List.compareLex FileName.order a b := by
  rw [order, components_joinAll, components_joinAll, compareLex_append_left,
    compareLex_map Component.order_component]

instance : Std.TransCmp order := transCmp_map components

/-! ## Extensions -/

variable {bytes stem extension : List UInt8}

/-- A name is cut at its last full stop, unless that begins it. -/
theorem cutExtension_append (hextension : fullStop ∉ extension) :
    cutExtension (stem ++ fullStop :: extension)
      = if stem = [] then (stem ++ fullStop :: extension, none) else (stem, some extension) := by
  have hlast : ((stem ++ fullStop :: extension).reverse.takeWhile (· ≠ fullStop)).reverse
      = extension := by
    rw [List.reverse_append, List.reverse_cons, List.append_assoc, List.takeWhile_append_of_pos]
    · simp
    · intro b hb
      have hne : b ≠ fullStop := fun h => hextension (h ▸ List.mem_reverse.1 hb)
      simpa using hne
  have hfront : (stem ++ fullStop :: extension).take
      ((stem ++ fullStop :: extension).length - extension.length - 1) = stem := by
    rw [List.length_append, List.length_cons]
    exact List.take_left' (by omega)
  have hlength : extension.length ≠ (stem ++ fullStop :: extension).length := by
    rw [List.length_append, List.length_cons]
    omega
  rw [cutExtension, hlast, hfront]
  by_cases hstem : stem = []
  · simp [hstem]
  · rw [if_neg (not_or.2 ⟨hlength, by simpa using hstem⟩), if_neg hstem]

/-- A name with an extension is a stem, a full stop and the extension, which has no full stop. -/
theorem cutExtension_eq_iff :
    cutExtension bytes = (stem, some extension)
      ↔ stem ≠ [] ∧ fullStop ∉ extension ∧ bytes = stem ++ fullStop :: extension := by
  constructor
  · intro h
    by_cases hstop : fullStop ∈ bytes
    · -- The last full stop is the first one from the end.
      obtain ⟨after, before, hreverse, hafter⟩ :=
        List.eq_append_cons_of_mem (List.mem_reverse.2 hstop)
      have hbytes : bytes = before.reverse ++ fullStop :: after.reverse := by
        rw [← List.reverse_reverse bytes, hreverse]
        simp
      have hextension : fullStop ∉ after.reverse := fun hmem => hafter (List.mem_reverse.1 hmem)
      rw [hbytes, cutExtension_append hextension] at h
      split at h
      · cases h
      next hstem =>
        cases h
        exact ⟨hstem, hextension, hbytes⟩
    · -- without a full stop all of the name is the stem
      have hall : ∀ b ∈ bytes.reverse, decide (b ≠ fullStop) = true := by
        intro b hb
        have hne : b ≠ fullStop := fun h => hstop (h ▸ List.mem_reverse.1 hb)
        simpa using hne
      rw [cutExtension, List.takeWhile_eq_self_iff.2 hall, List.reverse_reverse,
        if_pos (.inl rfl)] at h
      cases h
  · rintro ⟨hstem, hextension, rfl⟩
    rw [cutExtension_append hextension, if_neg hstem]

end Path

end Lexis
