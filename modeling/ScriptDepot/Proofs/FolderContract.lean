import ScriptDepot.Proofs.Breakdown
import ScriptDepot.Proofs.Shelf
/-!
# What a shelf on a folder reports

A fault of the system is always reported as a refusal.  A path with a zero in it, or with a
surrogate that stands for no byte, is never shown to the system, and what is done there breaks down
instead.  Such code points survive the cleaning up of a path, so they can be looked for in the key
and the folder as they were given.
-/

namespace ScriptDepot

/-- A surrogate that stands for no byte of a file name. -/
def CodePoint.NoByte (c : CodePoint) : Prop :=
  0xD800 ≤ c.val ∧ c.val < 0xDC80 ∨ 0xDCFF < c.val ∧ c.val < 0xE000

namespace Text

theorem fileFault_eq_none {t : Text} {i : Nat} :
    fileFault i t = none ↔ ∀ c ∈ t, ¬ c.NoByte := by
  induction t generalizing i with
  | nil => simp [fileFault]
  | cons c rest ih =>
    have hc : (c.isSurrogate && !c.isEscapedByte) = true ↔ c.NoByte := by
      simp only [CodePoint.isSurrogate, CodePoint.isEscapedByte, CodePoint.NoByte,
        Bool.and_eq_true, Bool.not_eq_true', Bool.and_eq_false_iff, decide_eq_true_eq,
        decide_eq_false_iff_not]
      omega
    rw [fileFault, List.forall_mem_cons, ← ih (i := i + 1)]
    split
    · rename_i hfault
      simp [hc.mp hfault]
    · rename_i hfault
      simp [mt hc.mpr hfault]

theorem fileBytes_eq_error {t : Text} :
    (∃ fault, t.fileBytes = .error fault) ↔ ∃ c ∈ t, c.NoByte := by
  have hnone : fileFault 0 t = none ↔ ∀ c ∈ t, ¬ c.NoByte := fileFault_eq_none
  unfold fileBytes
  cases hfault : fileFault 0 t with
  | none => simpa using hnone.mp hfault
  | some fault =>
    rw [hfault] at hnone
    simpa using hnone

theorem zero_mem_fileBytes {t : Text} :
    0 ∈ t.flatMap CodePoint.fileBytes ↔ ∃ c ∈ t, c.val = 0 := by
  constructor
  · intro hmem
    exact exists_of_mem_fileBytes hmem (by decide)
  · rintro ⟨c, hc, hzero⟩
    refine List.mem_flatMap.mpr ⟨c, hc, ?_⟩
    rw [CodePoint.fileBytes_of_lt (by omega), hzero]
    exact List.mem_singleton_self _

theorem mem_join {separator : Text} {parts : List Text} {c : CodePoint} (hc : c ∉ separator) :
    c ∈ join separator parts ↔ ∃ part ∈ parts, c ∈ part := by
  induction parts with
  | nil => simp [join]
  | cons t rest ih =>
    cases rest with
    | nil => simp [join]
    | cons u others =>
      rw [join, List.mem_append, List.mem_append, ih]
      · simp [hc]
      · simp

end Text

theorem mem_splitOn {α : Type} [DecidableEq α] {separator a : α} (ha : a ≠ separator)
    (l : List α) : (∃ part ∈ splitOn separator l, a ∈ part) ↔ a ∈ l := by
  induction l with
  | nil => simp [splitOn]
  | cons b rest ih =>
    rw [splitOn, List.mem_cons, ← ih]
    split
    · rename_i hb
      simp [hb, ha]
    · cases hrest : splitOn separator rest with
      | nil => exact absurd hrest (splitOn_ne_nil rest)
      | cons first others => simp [or_assoc]

namespace Path

/-! ## The code points of a path -/

/-- The folder and the key as they were given; an absolute key stands for itself. -/
def given (root : Path) (key : Text) : Text :=
  if key.head? = some ('/' : CodePoint) then key else root.text ++ key

theorem mem_components_iff {c : CodePoint} (hslash : c ≠ '/') (hdot : c ≠ '.') (t : Text) :
    (∃ part ∈ components t, c ∈ part) ↔ c ∈ t := by
  rw [← mem_splitOn hslash t]
  constructor
  · rintro ⟨part, hpart, hc⟩
    exact ⟨part, (List.mem_filter.mp hpart).1, hc⟩
  · rintro ⟨part, hpart, hc⟩
    refine ⟨part, List.mem_filter.mpr ⟨hpart, ?_⟩, hc⟩
    rw [decide_eq_true_eq]
    constructor
    · rintro rfl
      cases hc
    · rintro rfl
      exact hdot (List.mem_singleton.mp hc)

theorem mem_text {p : Path} {c : CodePoint} (hslash : c ≠ '/') (hdot : c ≠ '.') :
    c ∈ p.text ↔ ∃ part ∈ p.parts, c ∈ part := by
  have hslashes : ∀ anchor : Anchor, c ∉ anchor.text := by
    intro anchor hmem
    have hall : ∀ d ∈ anchor.text, d = ('/' : CodePoint) := by cases anchor <;> decide
    exact hslash (hall c hmem)
  have hseparator : c ∉ ("/" : Text) := hslashes .root
  have hcurrent : c ∉ ("." : Text) := fun hmem => hdot (List.mem_singleton.mp hmem)
  obtain ⟨anchor, parts⟩ := p
  unfold text
  split
  · rename_i hanchor hparts
    simp only at hparts
    subst hparts
    simp [hcurrent]
  · rw [List.mem_append, Text.mem_join hseparator]
    simp [hslashes]

theorem anchor_parse {key : Text} :
    (parse key).anchor = .relative ↔ key.head? ≠ some ('/' : CodePoint) := by
  unfold parse
  dsimp only
  cases key with
  | nil => simp
  | cons c rest =>
    by_cases hc : c = '/'
    · have hslashes : ((c :: rest).takeWhile (· = ('/' : CodePoint))).length ≠ 0 := by simp [hc]
      rw [if_neg hslashes]
      split <;> simp [hc]
    · simp [hc]

theorem mem_text_append {root : Path} {key : Text} {c : CodePoint} (hslash : c ≠ '/')
    (hdot : c ≠ '.') : c ∈ (root.append key).text ↔ c ∈ root.given key := by
  have hkey : (parse key).parts = components key := rfl
  rw [mem_text hslash hdot]
  unfold append given
  dsimp only
  by_cases habsolute : key.head? = some ('/' : CodePoint)
  · rw [if_neg (mt anchor_parse.mp (not_not.mpr habsolute)), if_pos habsolute, hkey,
      mem_components_iff hslash hdot]
  · rw [if_pos (anchor_parse.mpr habsolute), if_neg habsolute, List.mem_append, hkey,
      mem_text hslash hdot, ← mem_components_iff hslash hdot key]
    simp only [List.mem_append, or_and_right, exists_or]

/-! ## Paths without bytes -/

variable {p : Path}

theorem bytes_eq_unencodable :
    (∃ fault, p.bytes = .error (.unencodable fault)) ↔ ∃ c ∈ p.text, c.NoByte := by
  rw [← Text.fileBytes_eq_error]
  unfold bytes Text.systemBytes
  cases p.text.fileBytes with
  | error fault => simp
  | ok path => by_cases hnul : 0 ∈ path <;> simp [hnul]

theorem bytes_eq_nulInPath :
    p.bytes = .error .nulInPath ↔
      (∃ c ∈ p.text, c.val = 0) ∧ ¬ ∃ c ∈ p.text, c.NoByte := by
  rw [← Text.fileBytes_eq_error, ← Text.zero_mem_fileBytes]
  unfold bytes Text.systemBytes
  split
  · rename_i fault hfault
    simp [hfault]
  · rename_i path hpath
    rw [← Text.eq_flatMap_of_fileBytes hpath]
    split <;> simp_all

end Path

/-- What comes of something done at a path: what the system returns is returned, its faults are
refused, and it breaks down on a path that has a zero or a surrogate that stands for no byte in the
text it was given as. -/
structure Reports {α β : Type} (p : Path) (given : Text) (work : Bytes → Except OsError β)
    (returned : β → α) (refused : OsFault → Refusal) (outcome : Except Failure α) : Prop where
  returns : ∀ a, outcome = .ok a ↔
    ∃ path b, p.bytes = .ok path ∧ work path = .ok b ∧ a = returned b
  refuses : ∀ r, outcome = .error (.refusal r) ↔
    ∃ path e, p.bytes = .ok path ∧ work path = .error e ∧ r = refused ⟨e, p.text⟩
  nul : outcome = .error (.breakdown .nulInPath) ↔
    (∃ c ∈ given, c.val = 0) ∧ ¬ ∃ c ∈ given, c.NoByte
  surrogate : (∃ fault, outcome = .error (.breakdown (.unencodable fault))) ↔
    ∃ c ∈ given, c.NoByte
  only : ∀ b, outcome = .error (.breakdown b) → b = .nulInPath ∨ ∃ fault, b = .unencodable fault

theorem reports_report {α β : Type} (p : Path) {given : Text} (work : Bytes → Except OsError β)
    (returned : β → α) (refused : OsFault → Refusal)
    (hgiven : ∀ c : CodePoint, c ≠ '/' → c ≠ '.' → (c ∈ p.text ↔ c ∈ given)) :
    Reports p given work returned refused (p.report work returned refused) := by
  have hsame : ∀ P : CodePoint → Prop, ¬ P '/' → ¬ P '.' →
      ((∃ c ∈ p.text, P c) ↔ ∃ c ∈ given, P c) := by
    intro P hslash hdot
    refine exists_congr fun c => and_congr_left fun hc => ?_
    refine hgiven c ?_ ?_
    · rintro rfl
      exact hslash hc
    · rintro rfl
      exact hdot hc
  have hzero := hsame (fun c => c.val = 0) (by decide) (by decide)
  have hsurrogate := hsame CodePoint.NoByte (by unfold CodePoint.NoByte; decide)
    (by unfold CodePoint.NoByte; decide)
  constructor
  case nul => rw [Path.report_breaks, Path.bytes_eq_nulInPath, hzero, hsurrogate]
  case surrogate => simp only [Path.report_breaks, Path.bytes_eq_unencodable, hsurrogate]
  case only =>
    intro b h
    exact Text.systemBytes_eq_error (Path.report_breaks.mp h)
  all_goals
    unfold Path.report
    rcases p.act_cases work with
      ⟨path, hpath, ⟨a, hwork, hact⟩ | ⟨e, hwork, hact⟩⟩ | ⟨b, hb, hact, hos⟩
    · simp [hact, hpath, hwork, eq_comm]
    · simp [hact, hpath, hwork, eq_comm]
    · simp [hact, hb]

namespace Shelf

theorem count_listable (root : Path) {files : FileSystem} (h : files.listable = true) :
    (Shelf.folder root files).count = root.report files.enumerate List.length fun fault =>
      .storage (.cannotEnumerate root.text fault) := by
  simp only [count, entries, Path.enumerate, h, if_true, Path.report]
  cases root.act files.enumerate with
  | ok names => rfl
  | error b => cases b <;> rfl

theorem entries_of_isFolder {root : Path} {files : FileSystem} (h : root.isFolder files = .ok true)
    (hlist : files.listable = true) : ∃ names, entries root files = .ok names := by
  obtain ⟨l, hl, hfolder⟩ := Path.isFolder_eq_true.mp h
  exact ⟨files.entriesAt l, by
    simp [entries, Path.enumerate, hlist, Path.act_enumerate hl hfolder]⟩

theorem keys_folder_returns (root : Path) (files : FileSystem) :
    (∃ names, (Shelf.folder root files).keys.outcome = .ok names) ↔
      root.isFolder files = .ok true ∧ files.listable = true := by
  simp only [keys]
  cases hfolder : root.isFolder files with
  | error b => simp
  | ok found =>
    cases found with
    | false => simp
    | true =>
      cases hlist : files.listable with
      | false => simp [entries_unlistable root hlist]
      | true =>
        obtain ⟨names, hnames⟩ := entries_of_isFolder hfolder hlist
        simp [hnames]

theorem keys_folder_refuses (root : Path) (files : FileSystem) (r : Refusal) :
    (Shelf.folder root files).keys.outcome = .error (.refusal r) ↔
      (root.isFolder files = .ok false ∧ r = .notFolder root.text) ∨
      (root.isFolder files = .ok true ∧ files.listable = false ∧
        r = .storage (.cannotEnumerate root.text ⟨.denied, root.text⟩)) := by
  simp only [keys]
  cases hfolder : root.isFolder files with
  | error b => simp
  | ok found =>
    cases found with
    | false =>
      simp only [Act.outcome_fail, Except.error.injEq, Failure.refusal.injEq, Except.ok.injEq,
        Bool.false_eq_true, false_and, true_and, or_false]
      exact eq_comm
    | true =>
      cases hlist : files.listable with
      | false =>
        simp only [entries_unlistable root hlist, Act.outcome_fail, Except.error.injEq,
          Failure.refusal.injEq, Except.ok.injEq, Bool.true_eq_false, false_and, true_and, false_or]
        exact eq_comm
      | true =>
        obtain ⟨names, hnames⟩ := entries_of_isFolder hfolder hlist
        simp [hnames]

/-- Reading, writing and counting refuse whatever the system refuses, and break down on a path with
a zero or a surrogate that stands for no byte.  Listing looks at the folder first, and breaks down
on every fault in which that does not show that there is no folder. -/
theorem folder_reports_or_breaks (root : Path) (files : FileSystem) (key : Text) (bytes : Bytes) :
    let path := root.append key
    let shelf := Shelf.folder root files
    Reports path (root.given key) files.readFile id
      (fun fault => if fault.error = .noEntry then .notFound key
        else .storage (.cannotRead path.text fault)) (shelf.get key) ∧
    Reports path (root.given key) (files.writeFile · bytes) (Shelf.folder root)
      (fun fault => .storage (.cannotWrite path.text fault)) (shelf.put key bytes) ∧
    (if files.listable then
      Reports root root.text files.enumerate List.length
        (fun fault => .storage (.cannotEnumerate root.text fault)) shelf.count
    else
      shelf.count = .error (.refusal (.storage (.cannotEnumerate root.text ⟨.denied, root.text⟩))))
    ∧
    ((∃ names, shelf.keys.outcome = .ok names) ↔
      root.isFolder files = .ok true ∧ files.listable = true) ∧
    (∀ r, shelf.keys.outcome = .error (.refusal r) ↔
      (root.isFolder files = .ok false ∧ r = .notFolder root.text) ∨
      (root.isFolder files = .ok true ∧ files.listable = false ∧
        r = .storage (.cannotEnumerate root.text ⟨.denied, root.text⟩))) ∧
    ∀ b, shelf.keys.outcome = .error (.breakdown b) ↔
      ∃ path e, root.bytes = .ok path ∧ files.isFolder path = .error e ∧
        e ≠ .noEntry ∧ e ≠ .notFolder ∧ b = .os ⟨e, root.text⟩ := by
  intro path shelf
  have hgiven : ∀ c : CodePoint, c ≠ '/' → c ≠ '.' → (c ∈ path.text ↔ c ∈ root.given key) :=
    fun c hslash hdot => Path.mem_text_append hslash hdot
  refine ⟨?_, ?_, ?_, keys_folder_returns root files, keys_folder_refuses root files,
    fun b => keys_folder_breaks⟩
  · rw [get_folder]
    exact reports_report _ _ _ _ hgiven
  · rw [put_folder]
    exact reports_report _ _ _ _ hgiven
  · cases hlist : files.listable with
    | false => exact count_unlistable root hlist
    | true =>
      rw [if_pos rfl, count_listable root hlist]
      exact reports_report _ _ _ _ fun c _ _ => Iff.rfl

theorem nul_key_breaks :
    (Shelf.folder ⟨.relative, ["s"]⟩ ⟨.empty, [], true⟩).get [CodePoint.ofNat 0] =
      .error (.breakdown .nulInPath) := by
  decide

end Shelf

end ScriptDepot
