import ScriptDepot.Proofs.FileSystem
import ScriptDepot.Proofs.Utf8
/-!
# Where names lead

A plain name names one entry of a folder: as a path from the folder it is the one component, and the
system finds it by the UTF-8 bytes of the name right below where the folder is.  Any relative name
is followed from where the folder is, and only downwards unless it has two dots among its
components.
-/

namespace ScriptDepot

/-! ## Splitting -/

section

variable {α : Type} [DecidableEq α] {separator : α}

theorem splitOn_ne_nil (l : List α) : splitOn separator l ≠ [] := by
  cases l with
  | nil => simp [splitOn]
  | cons a rest =>
    rw [splitOn]
    split
    · simp
    · split <;> simp

theorem splitOn_of_not_mem {l : List α} (h : separator ∉ l) : splitOn separator l = [l] := by
  induction l with
  | nil => rfl
  | cons a rest ih =>
    rw [List.mem_cons, not_or] at h
    rw [splitOn, if_neg (Ne.symm h.1), ih h.2]

theorem not_mem_of_mem_splitOn {l part : List α} (h : part ∈ splitOn separator l) :
    separator ∉ part := by
  induction l generalizing part with
  | nil =>
    rw [splitOn, List.mem_singleton] at h
    simp [h]
  | cons a rest ih =>
    rw [splitOn] at h
    split at h
    · rcases List.mem_cons.mp h with rfl | h
      · simp
      · exact ih h
    · rename_i ha
      cases hrest : splitOn separator rest with
      | nil => exact absurd hrest (splitOn_ne_nil rest)
      | cons first others =>
        rw [hrest] at h ih
        rcases List.mem_cons.mp h with rfl | h
        · rw [List.mem_cons, not_or]
          exact ⟨Ne.symm ha, ih List.mem_cons_self⟩
        · exact ih (List.mem_cons_of_mem first h)

theorem splitOn_append (s t : List α) :
    splitOn separator (s ++ separator :: t) = splitOn separator s ++ splitOn separator t := by
  induction s with
  | nil => simp [splitOn]
  | cons a rest ih =>
    rw [List.cons_append, splitOn, splitOn, ih]
    by_cases ha : a = separator
    · rw [if_pos ha, if_pos ha, List.cons_append]
    · rw [if_neg ha, if_neg ha]
      cases hrest : splitOn separator rest with
      | nil => exact absurd hrest (splitOn_ne_nil rest)
      | cons first others => rfl

end

theorem Text.join_append_singleton (separator : Text) {parts : List Text} (h : parts ≠ [])
    (name : Text) :
    Text.join separator (parts ++ [name]) = Text.join separator parts ++ separator ++ name := by
  induction parts with
  | nil => exact absurd rfl h
  | cons t rest ih =>
    cases rest with
    | nil => simp [join]
    | cons u others =>
      have hrest := ih (by simp)
      simp only [List.cons_append] at hrest ⊢
      simp only [join, hrest, List.append_assoc]

namespace FileSystem

theorem names_append (s t : Bytes) : names (s ++ 0x2F :: t) = names s ++ names t := by
  simp only [names, splitOn_append, List.filter_append]

theorem names_of_not_mem {name : Bytes} (hslash : 0x2F ∉ name) (hne : name ≠ [])
    (hdot : name ≠ [0x2E]) : names name = [name] := by
  simp [names, splitOn_of_not_mem hslash, hne, hdot]

end FileSystem

/-! ## Plain names -/

namespace Path

theorem slash_not_mem_bytes {name : Text} (h : ('/' : CodePoint) ∉ name) :
    0x2F ∉ name.flatMap CodePoint.fileBytes := by
  intro hmem
  obtain ⟨c, hc, hval⟩ := Text.exists_of_mem_fileBytes hmem (by decide)
  have heq : c = ('/' : CodePoint) := CodePoint.ext hval
  exact h (heq ▸ hc)

/-- A name that the folder at `root` can have an entry under: neither empty nor one of the two names
made of dots, without slash, NUL or surrogate, and short enough for the system by itself and behind
the path of the folder. -/
structure IsPlain (root : Path) (name : Text) : Prop where
  nonempty : name ≠ []
  not_dot : name ≠ ("." : Text)
  not_up : name ≠ (".." : Text)
  no_slash : ('/' : CodePoint) ∉ name
  no_nul : CodePoint.ofChar '\x00' ∉ name
  scalar : name.isScalar = true
  short : name.utf8.length ≤ 255
  path_short : ((root.child name).text.flatMap CodePoint.fileBytes).length ≤ 4095

instance (root : Path) (name : Text) : Decidable (root.IsPlain name) :=
  decidable_of_iff (name ≠ [] ∧ name ≠ ("." : Text) ∧ name ≠ (".." : Text) ∧
      ('/' : CodePoint) ∉ name ∧ CodePoint.ofChar '\x00' ∉ name ∧ name.isScalar = true ∧
      name.utf8.length ≤ 255 ∧
      ((root.child name).text.flatMap CodePoint.fileBytes).length ≤ 4095)
    ⟨fun ⟨h₁, h₂, h₃, h₄, h₅, h₆, h₇, h₈⟩ => ⟨h₁, h₂, h₃, h₄, h₅, h₆, h₇, h₈⟩,
      fun ⟨h₁, h₂, h₃, h₄, h₅, h₆, h₇, h₈⟩ => ⟨h₁, h₂, h₃, h₄, h₅, h₆, h₇, h₈⟩⟩

namespace IsPlain

variable {root : Path} {name : Text}

theorem append_eq (h : root.IsPlain name) : root.append name = root.child name := by
  have hcomponents : components name = [name] := by
    have hdot := h.not_dot
    simp [components, splitOn_of_not_mem h.no_slash, h.nonempty, hdot]
  have hslashes : (name.takeWhile (· = ('/' : CodePoint))).length = 0 := by
    cases hname : name with
    | nil => rfl
    | cons c rest =>
      have hc : c ≠ ('/' : CodePoint) := by
        rintro rfl
        exact h.no_slash (hname ▸ List.mem_cons_self)
      simp [hc]
  unfold append parse child
  simp only [hslashes, hcomponents, if_true]

theorem slash_not_mem (h : root.IsPlain name) : 0x2F ∉ name.utf8 := by
  rw [← Text.flatMap_fileBytes h.scalar]
  exact slash_not_mem_bytes h.no_slash

theorem nul_not_mem (h : root.IsPlain name) : 0 ∉ name.utf8 := by
  intro hmem
  obtain ⟨c, hc, hval⟩ := Text.exists_of_mem_utf8 hmem (by decide)
  have heq : c = CodePoint.ofChar '\x00' := CodePoint.ext hval
  exact h.no_nul (heq ▸ hc)

theorem utf8_ne (h : root.IsPlain name) {other : Text} (hother : other.isScalar = true)
    (hne : name ≠ other) : name.utf8 ≠ other.utf8 :=
  fun heq => hne (Text.utf8_inj h.scalar hother heq)

theorem utf8_ne_nil (h : root.IsPlain name) : name.utf8 ≠ [] := h.utf8_ne rfl h.nonempty

theorem names_utf8 (h : root.IsPlain name) : FileSystem.names name.utf8 = [name.utf8] := by
  have hdot : name.utf8 ≠ Text.utf8 "." := h.utf8_ne (by decide) h.not_dot
  exact FileSystem.names_of_not_mem h.slash_not_mem h.utf8_ne_nil hdot

theorem utf8_ne_up (h : root.IsPlain name) : name.utf8 ≠ FileSystem.up := by
  have hup : name.utf8 ≠ Text.utf8 ".." := h.utf8_ne (by decide) h.not_up
  exact hup

end IsPlain

/-! ## Where a plain name leads -/

variable {root : Path} {name : Text} {fs : FileSystem}

theorem bytes_eq_ok {p : Path} {path : Bytes} :
    p.bytes = .ok path ↔ p.text.fileBytes = .ok path ∧ 0 ∉ path := by
  unfold bytes Text.systemBytes
  cases p.text.fileBytes with
  | error fault => simp
  | ok found =>
    by_cases hnul : found.contains 0
    · simp only [hnul, if_true, reduceCtorEq, Except.ok.injEq, false_iff, not_and]
      rintro rfl
      simpa using hnul
    · simp only [hnul, if_false, Except.ok.injEq, Bool.false_eq_true, iff_self_and]
      rintro rfl
      simpa using hnul

/-- What stands before the name in the path of an entry: nothing in the working folder, and
otherwise the path of the folder with a slash behind it. -/
theorem text_child (root : Path) (name : Text) :
    (root = ⟨.relative, []⟩ ∧ (root.child name).text = name) ∨
      (root.parts = [] ∧ root.anchor ≠ .relative ∧
        (root.child name).text = root.anchor.text ++ name) ∨
      (root.parts ≠ [] ∧ (root.child name).text = root.text ++ ("/" ++ name)) := by
  obtain ⟨anchor, parts⟩ := root
  by_cases hparts : parts = []
  · subst hparts
    by_cases hanchor : anchor = .relative
    · subst hanchor
      exact .inl ⟨rfl, rfl⟩
    · exact .inr (.inl ⟨rfl, hanchor, by simp [child, text, Text.join]⟩)
  · refine .inr (.inr ⟨hparts, ?_⟩)
    have hne : parts ++ [name] ≠ [] := by simp
    have htext : ∀ parts : List Text, parts ≠ [] →
        Path.text ⟨anchor, parts⟩ = anchor.text ++ Text.join "/" parts := by
      intro parts hparts
      cases parts with
      | nil => exact absurd rfl hparts
      | cons t rest => cases anchor <;> rfl
    simp only [child]
    rw [htext _ hne, htext _ hparts, Text.join_append_singleton _ hparts]
    simp only [List.append_assoc]

def steps (p : Path) : List Bytes := FileSystem.names (p.text.flatMap CodePoint.fileBytes)

theorem names_of_bytes {p : Path} {path : Bytes} (h : p.bytes = .ok path) :
    FileSystem.names path = p.steps := by
  rw [Text.eq_flatMap_of_fileBytes (bytes_eq_ok.mp h).1]
  rfl

theorem text_ne_nil_of_bytes {p : Path} {path : Bytes} (h : p.bytes = .ok path) (hne : path ≠ []) :
    p.text ≠ [] := by
  intro hempty
  have hpath := Text.eq_flatMap_of_fileBytes (bytes_eq_ok.mp h).1
  rw [hempty] at hpath
  exact hne hpath

theorem steps_child (root : Path) (name : Text) :
    (root.child name).steps =
      root.steps ++ FileSystem.names (name.flatMap CodePoint.fileBytes) := by
  have hslash : ("/" : Text).flatMap CodePoint.fileBytes = [0x2F] := rfl
  unfold steps
  rcases text_child root name with ⟨rfl, htext⟩ | ⟨hparts, hanchor, htext⟩ | ⟨-, htext⟩
  · rw [htext]
    rfl
  · obtain ⟨anchor, parts⟩ := root
    cases hparts
    rw [htext, List.flatMap_append]
    cases anchor with
    | relative => exact absurd rfl hanchor
    | root => exact FileSystem.names_append [] _
    | doubleRoot => exact FileSystem.names_append [0x2F] _
  · rw [htext, List.flatMap_append, List.flatMap_append, hslash]
    exact FileSystem.names_append _ _

theorem head?_of_bytes {p : Path} {path : Bytes} (h : p.bytes = .ok path) :
    path.head? = some 0x2F ↔ p.text.head? = some ('/' : CodePoint) := by
  rw [Text.eq_flatMap_of_fileBytes (bytes_eq_ok.mp h).1]
  have hslash : 0x2F = ('/' : CodePoint).val.toUInt8 := rfl
  constructor
  · intro hhead
    obtain ⟨rest, hrest⟩ := List.head?_eq_some_iff.mp hhead
    obtain ⟨t, ht, -⟩ := Text.flatMap_fileBytes_eq_cons (by decide) (hslash ▸ hrest)
    rw [ht]
    rfl
  · intro hhead
    obtain ⟨t, ht⟩ := List.head?_eq_some_iff.mp hhead
    rw [ht]
    rfl

theorem head?_text_child {root : Path} {name : Text} (hroot : root.text ≠ [])
    (hslash : ('/' : CodePoint) ∉ name) (hname : name ≠ []) :
    (root.child name).text ≠ [] ∧
      ((root.child name).text.head? = some ('/' : CodePoint) ↔
        root.text.head? = some ('/' : CodePoint)) := by
  rcases text_child root name with ⟨rfl, htext⟩ | ⟨hparts, hanchor, htext⟩ | ⟨-, htext⟩
  · rw [htext]
    refine ⟨hname, ?_⟩
    constructor
    · intro hhead
      exact absurd (List.mem_of_head? hhead) hslash
    · intro hhead
      cases hhead
  · obtain ⟨anchor, parts⟩ := root
    cases hparts
    rw [htext]
    cases anchor with
    | relative => exact absurd rfl hanchor
    | root => exact ⟨List.cons_ne_nil _ _, Iff.rfl⟩
    | doubleRoot => exact ⟨List.cons_ne_nil _ _, Iff.rfl⟩
  · rw [htext]
    refine ⟨List.append_ne_nil_of_left_ne_nil hroot _, ?_⟩
    rw [List.head?_append, List.head?_eq_some_head hroot]
    exact Iff.rfl

theorem exists_text_child {root : Path} {path : Bytes} (name : Text) (h : root.bytes = .ok path) :
    ∃ before bytes, (root.child name).text = before ++ name ∧
      Text.fileBytes before = .ok bytes ∧ 0 ∉ bytes := by
  rcases text_child root name with ⟨rfl, htext⟩ | ⟨hparts, hanchor, htext⟩ | ⟨hparts, htext⟩
  · exact ⟨[], [], htext, rfl, List.not_mem_nil⟩
  · have hanchored : Text.fileBytes root.anchor.text = .ok root.anchor.text.utf8 := by
      cases root.anchor <;> rfl
    refine ⟨_, _, htext, hanchored, ?_⟩
    cases root.anchor <;> decide
  · obtain ⟨hbytes, hnul⟩ := bytes_eq_ok.mp h
    rw [← List.append_assoc] at htext
    refine ⟨_, _, htext, Text.fileBytes_append hbytes (by decide), ?_⟩
    rw [List.mem_append, not_or]
    exact ⟨hnul, by decide⟩

namespace IsPlain

theorem bytes_child (h : root.IsPlain name) {before : Text} {path : Bytes}
    (htext : (root.child name).text = before ++ name) (hbefore : before.fileBytes = .ok path)
    (hnul : 0 ∉ path) : (root.child name).bytes = .ok (path ++ name.utf8) := by
  rw [bytes_eq_ok, htext, Text.fileBytes_append hbefore h.scalar]
  refine ⟨rfl, ?_⟩
  rw [List.mem_append, not_or]
  exact ⟨hnul, h.nul_not_mem⟩

/-- The path of an entry is the path of its folder and one more name. -/
theorem exists_bytes (h : root.IsPlain name) {path : Bytes} (hroot : root.bytes = .ok path)
    (hne : path ≠ []) :
    ∃ longer, (root.child name).bytes = .ok longer ∧
      FileSystem.names longer = FileSystem.names path ++ [name.utf8] ∧
      (longer.head? = some 0x2F ↔ path.head? = some 0x2F) := by
  obtain ⟨before, bytes, htext, hbefore, hnul⟩ := exists_text_child name hroot
  have hlonger := h.bytes_child htext hbefore hnul
  have hnames : FileSystem.names (name.flatMap CodePoint.fileBytes) = [name.utf8] := by
    rw [Text.flatMap_fileBytes h.scalar, h.names_utf8]
  have hroottext : root.text ≠ [] := text_ne_nil_of_bytes hroot hne
  obtain ⟨-, hhead⟩ := head?_text_child hroottext h.no_slash h.nonempty
  refine ⟨_, hlonger, ?_, ?_⟩
  · rw [names_of_bytes hlonger, steps_child, hnames, names_of_bytes hroot]
  · rw [head?_of_bytes hlonger, head?_of_bytes hroot, hhead]

theorem act_locate (h : root.IsPlain name) {l : Location} (hl : root.act fs.locate = .ok l)
    (hfolder : fs.isFolderAt l = true) :
    (root.append name).act fs.locate = .ok (l ++ [name.utf8]) := by
  obtain ⟨path, hpath, hl⟩ := act_eq_ok.mp hl
  obtain ⟨-, hne, hwalk⟩ := FileSystem.locate_eq_ok.mp hl
  obtain ⟨longer, hlonger, hnames, hhead⟩ := h.exists_bytes hpath hne
  have hlength : longer.length ≤ FileSystem.maxPath := by
    obtain ⟨hbytes, -⟩ := bytes_eq_ok.mp hlonger
    rw [Text.eq_flatMap_of_fileBytes hbytes]
    exact h.path_short
  have hne' : longer ≠ [] := by
    rintro rfl
    have := congrArg List.length hnames
    simp [FileSystem.names, splitOn] at this
  have horigin : fs.origin longer = fs.origin path := by
    simp only [FileSystem.origin, hhead]
  rw [h.append_eq]
  refine act_eq_ok.mpr ⟨longer, hlonger, FileSystem.locate_eq_ok.mpr ⟨hlength, hne', ?_⟩⟩
  rw [hnames, horigin]
  refine FileSystem.walk_append_eq_ok.mpr ⟨l, hwalk, ?_⟩
  exact FileSystem.walk_cons_eq_ok.mpr ⟨hfolder, .inr ⟨h.utf8_ne_up, h.short, rfl⟩⟩

end IsPlain

/-! ## Where a relative name leads -/

theorem mem_components {part name : Text} (h : part ∈ components name) :
    ('/' : CodePoint) ∉ part ∧ part ≠ [] := by
  obtain ⟨hmem, hpart⟩ := List.mem_filter.mp h
  rw [decide_eq_true_eq] at hpart
  exact ⟨not_mem_of_mem_splitOn hmem, hpart.1⟩

theorem steps_append (anchor : Anchor) (parts others : List Text) :
    steps ⟨anchor, parts ++ others⟩ =
      steps ⟨anchor, parts⟩ ++
        others.flatMap fun part => FileSystem.names (part.flatMap CodePoint.fileBytes) := by
  induction others generalizing parts with
  | nil => simp
  | cons part rest ih =>
    have hparts : parts ++ part :: rest = parts ++ [part] ++ rest := by simp
    have hchild : Path.child ⟨anchor, parts⟩ part = ⟨anchor, parts ++ [part]⟩ := rfl
    rw [hparts, ih, ← hchild, steps_child, List.flatMap_cons, List.append_assoc]

theorem head?_text_append {anchor : Anchor} {parts others : List Text}
    (hne : Path.text ⟨anchor, parts⟩ ≠ [])
    (hothers : ∀ part ∈ others, ('/' : CodePoint) ∉ part ∧ part ≠ []) :
    Path.text ⟨anchor, parts ++ others⟩ ≠ [] ∧
      ((Path.text ⟨anchor, parts ++ others⟩).head? = some ('/' : CodePoint) ↔
        (Path.text ⟨anchor, parts⟩).head? = some ('/' : CodePoint)) := by
  induction others generalizing parts with
  | nil =>
    rw [List.append_nil]
    exact ⟨hne, Iff.rfl⟩
  | cons part rest ih =>
    obtain ⟨hslash, hpart⟩ := hothers part List.mem_cons_self
    obtain ⟨hchild, hhead⟩ := head?_text_child hne hslash hpart
    obtain ⟨hall, hheads⟩ := ih hchild fun other hother =>
      hothers other (List.mem_cons_of_mem part hother)
    rw [List.append_assoc] at hall hheads
    exact ⟨hall, hheads.trans hhead⟩

/-- Where a relative name leads is found by walking on from the folder. -/
theorem walk_of_relative {l m : Location} (hname : (parse name).anchor = .relative)
    (hl : root.act fs.locate = .ok l) (hm : (root.append name).act fs.locate = .ok m) :
    fs.walk l ((components name).flatMap fun part =>
      FileSystem.names (part.flatMap CodePoint.fileBytes)) = .ok m := by
  obtain ⟨path, hpath, hl⟩ := act_eq_ok.mp hl
  obtain ⟨-, hne, hwalk⟩ := FileSystem.locate_eq_ok.mp hl
  have happend : root.append name = ⟨root.anchor, root.parts ++ components name⟩ := if_pos hname
  rw [happend] at hm
  obtain ⟨longer, hlonger, hm⟩ := act_eq_ok.mp hm
  obtain ⟨-, -, hwalk'⟩ := FileSystem.locate_eq_ok.mp hm
  have hroottext : root.text ≠ [] := text_ne_nil_of_bytes hpath hne
  have hparts : ∀ part ∈ components name, ('/' : CodePoint) ∉ part ∧ part ≠ [] :=
    fun part hpart => mem_components hpart
  obtain ⟨-, hhead⟩ := head?_text_append hroottext hparts
  have horigin : fs.origin longer = fs.origin path := by
    simp only [FileSystem.origin, head?_of_bytes hlonger, head?_of_bytes hpath, hhead]
  rw [horigin, names_of_bytes hlonger, steps_append, ← names_of_bytes hpath] at hwalk'
  obtain ⟨l', hl', hwalk'⟩ := FileSystem.walk_append_eq_ok.mp hwalk'
  cases hl'.symm.trans hwalk
  exact hwalk'

theorem names_of_component {part : Text} (h : part ∈ components name) :
    FileSystem.names (part.flatMap CodePoint.fileBytes) = [part.flatMap CodePoint.fileBytes] := by
  obtain ⟨hslash, hne⟩ := mem_components h
  have hdot : part ≠ ("." : Text) := (decide_eq_true_eq.mp (List.mem_filter.mp h).2).2
  refine FileSystem.names_of_not_mem (slash_not_mem_bytes hslash) ?_ ?_
  · intro hempty
    exact hne (Text.eq_of_flatMap_fileBytes_eq (s := []) (by simp) hempty)
  · intro hbytes
    exact hdot (Text.eq_of_flatMap_fileBytes_eq (by decide) hbytes)

theorem flatMap_names_components (name : Text) :
    ((components name).flatMap fun part => FileSystem.names (part.flatMap CodePoint.fileBytes)) =
      (components name).map (List.flatMap CodePoint.fileBytes) := by
  have hparts : ∀ part ∈ components name,
      FileSystem.names (part.flatMap CodePoint.fileBytes) = [part.flatMap CodePoint.fileBytes] :=
    fun part hpart => names_of_component hpart
  generalize components name = parts at hparts
  induction parts with
  | nil => rfl
  | cons part rest ih =>
    rw [List.forall_mem_cons] at hparts
    rw [List.flatMap_cons, hparts.1, ih hparts.2, List.map_cons, List.singleton_append]

/-- Whether a name may lead out of the folder that it is looked up in: it is absolute, or goes up.
-/
def strays (name : Text) : Bool :=
  (parse name).anchor ≠ .relative ∨ (".." : Text) ∈ components name

theorem eq_of_up_mem_names {part : Text} (hslash : ('/' : CodePoint) ∉ part)
    (h : FileSystem.up ∈ FileSystem.names (part.flatMap CodePoint.fileBytes)) :
    part = (".." : Text) := by
  have hmem := (List.mem_filter.mp h).1
  rw [splitOn_of_not_mem (slash_not_mem_bytes hslash), List.mem_singleton] at hmem
  exact Text.eq_of_flatMap_fileBytes_eq (by decide) hmem.symm

theorem exists_walk_of_not_strays {l m : Location} (hname : strays name = false)
    (hl : root.act fs.locate = .ok l) (hm : (root.append name).act fs.locate = .ok m) :
    ∃ names, FileSystem.up ∉ names ∧ fs.walk l names = .ok m := by
  rw [strays, decide_eq_false_iff_not, not_or, Decidable.not_not] at hname
  refine ⟨_, ?_, walk_of_relative hname.1 hl hm⟩
  intro hup
  obtain ⟨part, hpart, hup⟩ := List.mem_flatMap.mp hup
  have heq := eq_of_up_mem_names (mem_components hpart).1 hup
  exact hname.2 (heq ▸ hpart)

/-! ## Stems -/

/-- `stem` is `name` cut at its last dot, or all of it when that dot is its first or last code point
or there is none. -/
def IsStem (name stem : Text) : Prop :=
  (∃ suffix, name = stem ++ "." ++ suffix ∧ ('.' : CodePoint) ∉ suffix ∧ stem ≠ [] ∧ suffix ≠ []) ∨
    (stem = name ∧ ∀ before suffix : Text, name = before ++ "." ++ suffix →
      ('.' : CodePoint) ∉ suffix → before = [] ∨ suffix = [])

theorem takeWhile_reverse {suffix : Text} (h : ('.' : CodePoint) ∉ suffix) (rest : Text) :
    (suffix.reverse ++ rest).takeWhile (· ≠ ('.' : CodePoint)) =
      suffix.reverse ++ rest.takeWhile (· ≠ ('.' : CodePoint)) := by
  apply List.takeWhile_append_of_pos
  intro c hc
  rw [decide_eq_true_eq]
  rintro rfl
  exact h (List.mem_reverse.mp hc)

theorem stem_append_dot (before : Text) {suffix : Text} (h : ('.' : CodePoint) ∉ suffix) :
    stem (before ++ "." ++ suffix) =
      if suffix = [] ∨ before = [] then before ++ "." ++ suffix else before := by
  have hreverse : (before ++ "." ++ suffix).reverse =
      suffix.reverse ++ ('.' : CodePoint) :: before.reverse := by
    simp [Text.ofString]
  have hafter : (before ++ "." ++ suffix).reverse.takeWhile (· ≠ ('.' : CodePoint)) =
      suffix.reverse := by
    rw [hreverse, takeWhile_reverse h]
    simp
  have hbefore : (before ++ "." ++ suffix).take
      ((before ++ "." ++ suffix).length - suffix.reverse.length - 1) = before := by
    have hlength : (before ++ "." ++ suffix).length - suffix.reverse.length - 1 =
        before.length := by
      have hdot : (("." : Text)).length = 1 := rfl
      simp only [List.length_append, List.length_reverse, hdot]
      omega
    rw [hlength, List.append_assoc, List.take_left]
  unfold stem
  simp only [hafter, hbefore, List.reverse_eq_nil_iff]

theorem stem_of_no_dot {name : Text} (h : ('.' : CodePoint) ∉ name) : stem name = name := by
  have hafter := takeWhile_reverse h []
  rw [List.append_nil, List.takeWhile_nil, List.append_nil] at hafter
  unfold stem
  simp only [hafter, List.length_reverse, Nat.sub_self, Nat.zero_sub, List.take_zero, or_true,
    if_true]

theorem exists_last_dot {name : Text} (h : ('.' : CodePoint) ∈ name) :
    ∃ before suffix : Text, name = before ++ "." ++ suffix ∧ ('.' : CodePoint) ∉ suffix := by
  obtain ⟨after, front, hname, hafter⟩ := List.eq_append_cons_of_mem (List.mem_reverse.mpr h)
  refine ⟨front.reverse, after.reverse, ?_, by simpa using hafter⟩
  have hreverse := congrArg List.reverse hname
  simpa [Text.ofString] using hreverse

theorem isStem_stem (name : Text) : IsStem name (stem name) := by
  by_cases hdot : ('.' : CodePoint) ∈ name
  · obtain ⟨before, suffix, hname, hsuffix⟩ := exists_last_dot hdot
    by_cases hend : suffix = [] ∨ before = []
    · have hstem : stem name = name := by
        rw [hname, stem_append_dot before hsuffix, if_pos hend]
      refine .inr ⟨hstem, ?_⟩
      -- A dot inside would have been the place to cut at.
      intro front rest hsplit hrest
      by_cases hinner : rest = [] ∨ front = []
      · exact hinner.symm
      · rw [hsplit, stem_append_dot front hrest, if_neg hinner] at hstem
        have hlength := congrArg List.length hstem
        simp [Text.ofString] at hlength
    · refine .inl ⟨suffix, ?_, hsuffix, ?_, ?_⟩
      · rw [hname, stem_append_dot before hsuffix, if_neg hend]
      · rw [hname, stem_append_dot before hsuffix, if_neg hend]
        exact fun h => hend (.inr h)
      · exact fun h => hend (.inl h)
  · refine .inr ⟨stem_of_no_dot hdot, ?_⟩
    intro before suffix hname
    exact absurd (by simp [hname, Text.ofString]) hdot

theorem isScalar_stem {name : Text} (h : name.isScalar = true) : (stem name).isScalar = true := by
  rcases isStem_stem name with ⟨suffix, hname, -⟩ | ⟨hname, -⟩
  · rw [hname] at h
    simp only [Text.isScalar, List.all_append, Bool.and_eq_true] at h ⊢
    exact h.1.1
  · rw [hname]
    exact h

end Path

end ScriptDepot
