import ScriptDepot.FileSystem
/-!
# What a write does to a file system

A write that goes through puts one file at one location, where no folder was.  So folders stay where
they are, a path that leads to a folder goes on leading there, and a folder gains at most the one
entry.
-/

namespace ScriptDepot

namespace FileSystem

variable {fs : FileSystem}

@[simp] theorem node?_nil : fs.node? [] = some .folder := rfl

theorem isFolderAt_iff {l : Location} : fs.isFolderAt l = true ↔ fs.node? l = some .folder := by
  simp [isFolderAt]

@[simp] theorem isFolderAt_nil : fs.isFolderAt [] = true := isFolderAt_iff.mpr node?_nil

theorem node?_set_self {l : Location} (node : Node) (h : l ≠ []) :
    (fs.set l node).node? l = some node := by
  simp [node?, h, set, Ledger.get?, Ledger.put]

theorem node?_set_of_ne {l m : Location} (node : Node) (h : m ≠ l) :
    (fs.set l node).node? m = fs.node? m := by
  simp [node?, set, Ledger.get?, Ledger.put, Assoc.get?_put_of_ne h]

def up : Bytes := [0x2E, 0x2E]

/-- One name of a walk starts from a folder, and leads to the folder above or to an entry whose name
is short enough. -/
theorem walk_cons_eq_ok {l target : Location} {name : Bytes} {rest : List Bytes} :
    fs.walk l (name :: rest) = .ok target ↔
      fs.isFolderAt l = true ∧
        ((name = up ∧ fs.walk l.dropLast rest = .ok target) ∨
          (name ≠ up ∧ name.length ≤ maxName ∧ fs.walk (l ++ [name]) rest = .ok target)) := by
  unfold up
  rw [walk]
  by_cases hfolder : fs.isFolderAt l = true
  · rw [if_neg (by simp [hfolder])]
    by_cases hup : name = [0x2E, 0x2E]
    · rw [if_pos hup]
      simp [hfolder, hup]
    · rw [if_neg hup]
      by_cases hlong : maxName < name.length
      · rw [if_pos hlong]
        simp only [reduceCtorEq, false_iff]
        rintro ⟨-, ⟨h, -⟩ | ⟨-, h, -⟩⟩
        · exact hup h
        · omega
      · rw [if_neg hlong]
        have hshort : name.length ≤ maxName := by omega
        cases rest with
        | nil => simp [hfolder, hup, hshort, walk]
        | cons next rest =>
          rw [if_neg (by simp)]
          by_cases hnode : fs.node? (l ++ [name]) = none
          · simp [hnode, hup, hshort, walk, isFolderAt]
          · simp [hnode, hfolder, hup, hshort]
  · simp [hfolder]

/-- A walk over two stretches of names goes by where the first one leads. -/
theorem walk_append_eq_ok {names others : List Bytes} {l target : Location} :
    fs.walk l (names ++ others) = .ok target ↔
      ∃ m, fs.walk l names = .ok m ∧ fs.walk m others = .ok target := by
  induction names generalizing l with
  | nil => simp [walk]
  | cons name rest ih =>
    simp only [List.cons_append, walk_cons_eq_ok, ih]
    constructor
    · rintro ⟨hfolder, ⟨hup, m, hm, h⟩ | ⟨hup, hshort, m, hm, h⟩⟩
      · exact ⟨m, ⟨hfolder, .inl ⟨hup, hm⟩⟩, h⟩
      · exact ⟨m, ⟨hfolder, .inr ⟨hup, hshort, hm⟩⟩, h⟩
    · rintro ⟨m, ⟨hfolder, ⟨hup, hm⟩ | ⟨hup, hshort, hm⟩⟩, h⟩
      · exact ⟨hfolder, .inl ⟨hup, m, hm, h⟩⟩
      · exact ⟨hfolder, .inr ⟨hup, hshort, m, hm, h⟩⟩

def origin (fs : FileSystem) (path : Bytes) : Location :=
  if path.head? = some 0x2F then [] else fs.here

theorem locate_eq_ok {path : Bytes} {l : Location} :
    fs.locate path = .ok l ↔
      path.length ≤ maxPath ∧ path ≠ [] ∧ fs.walk (fs.origin path) (names path) = .ok l := by
  unfold locate origin
  by_cases hlong : maxPath < path.length
  · rw [if_pos hlong]
    simp only [reduceCtorEq, false_iff, not_and]
    omega
  · rw [if_neg hlong]
    by_cases hempty : path = []
    · rw [if_pos hempty]
      simp [hempty]
    · rw [if_neg hempty]
      simp [hempty, Nat.le_of_not_lt hlong]

/-! ## Folders stay -/

theorem isFolderAt_set_file {l : Location} (content : Bytes) (h : fs.isFolderAt l = false)
    (m : Location) : (fs.set l (.file content)).isFolderAt m = fs.isFolderAt m := by
  by_cases hm : m = l
  · subst hm
    have hne : m ≠ [] := by
      rintro rfl
      simp at h
    rw [h, isFolderAt, node?_set_self _ hne]
    rfl
  · rw [isFolderAt, isFolderAt, node?_set_of_ne _ hm]

theorem walk_set_file {l : Location} (content : Bytes) (h : fs.isFolderAt l = false)
    {names : List Bytes} {start target : Location} :
    (fs.set l (.file content)).walk start names = .ok target ↔
      fs.walk start names = .ok target := by
  induction names generalizing start with
  | nil => rfl
  | cons name rest ih => simp only [walk_cons_eq_ok, isFolderAt_set_file content h, ih]

theorem locate_set_file {l : Location} (content : Bytes) (h : fs.isFolderAt l = false)
    {path : Bytes} {target : Location} :
    (fs.set l (.file content)).locate path = .ok target ↔ fs.locate path = .ok target := by
  have horigin : (fs.set l (.file content)).origin path = fs.origin path := rfl
  simp only [locate_eq_ok, horigin, walk_set_file content h]

/-! ## Writing -/

theorem writeFile_eq_ok {path content : Bytes} {after : FileSystem} :
    fs.writeFile path content = .ok after ↔
      ∃ l, fs.locate path = .ok l ∧ fs.isFolderAt l = false ∧
        after = fs.set l (.file content) := by
  unfold writeFile
  rw [bind_eq_ok]
  refine exists_congr fun l => and_congr_right fun _ => ?_
  cases fs.isFolderAt l <;> simp [eq_comm]

/-! ## Reading -/

theorem readFile_eq_ok {path content : Bytes} :
    fs.readFile path = .ok content ↔
      ∃ l, fs.locate path = .ok l ∧ fs.node? l = some (.file content) := by
  unfold readFile find
  rw [bind_eq_ok]
  simp only [bind_eq_ok]
  constructor
  · rintro ⟨node, ⟨l, hl, hfound⟩, hnode⟩
    refine ⟨l, hl, ?_⟩
    cases node with
    | folder => cases hnode
    | file found =>
      cases hnode
      cases hat : fs.node? l with
      | none => simp [hat] at hfound
      | some other =>
        simp only [hat, Except.ok.injEq] at hfound
        rw [hfound]
  · rintro ⟨l, hl, hnode⟩
    exact ⟨.file content, ⟨l, hl, by simp [hnode]⟩, rfl⟩

/-! ## Entries -/

def isIn (l m : Location) : Bool := m ≠ [] ∧ m.dropLast = l

theorem isSome_nameIn (l m : Location) : (nameIn l m).isSome = isIn l m := by
  unfold nameIn isIn
  split
  · rename_i h
    simp [h, List.getLast?_isSome]
  · rename_i h
    simp [h]

theorem length_entriesAt (l : Location) :
    (fs.entriesAt l).length = fs.nodes.keys.countP (isIn l) := by
  unfold entriesAt
  rw [Ascending.length_sort, List.length_filterMap_eq_countP]
  simp only [isSome_nameIn]

theorem countP_keys_set_le (p : Location → Bool) (l : Location) (node : Node) :
    fs.nodes.keys.countP p ≤ (fs.set l node).nodes.keys.countP p ∧
      (fs.set l node).nodes.keys.countP p ≤ fs.nodes.keys.countP p + 1 := by
  by_cases h : l ∈ fs.nodes.keys
  · have hkeys : (fs.set l node).nodes.keys = fs.nodes.keys := Assoc.keys_put_of_mem h
    rw [hkeys]
    omega
  · have hkeys : (fs.set l node).nodes.keys = fs.nodes.keys ++ [l] :=
      Assoc.keys_put_of_not_mem h
    rw [hkeys, List.countP_append]
    have hone : [l].countP p ≤ 1 := List.countP_le_length
    omega

end FileSystem

/-! ## Paths -/

namespace Path

variable {p : Path} {fs : FileSystem}

theorem act_eq_ok {α : Type} {f : Bytes → Except OsError α} {a : α} :
    p.act f = .ok a ↔ ∃ path, p.bytes = .ok path ∧ f path = .ok a := by
  unfold act
  rw [bind_eq_ok]
  refine exists_congr fun path => and_congr_right fun _ => ?_
  cases f path <;> simp

theorem act_locate_set_file {l : Location} (content : Bytes) (h : fs.isFolderAt l = false)
    {target : Location} :
    p.act (fs.set l (.file content)).locate = .ok target ↔ p.act fs.locate = .ok target := by
  simp only [act_eq_ok, FileSystem.locate_set_file content h]

theorem isFolder_eq_true : p.isFolder fs = .ok true ↔
    ∃ l, p.act fs.locate = .ok l ∧ fs.isFolderAt l = true := by
  have hact : p.isFolder fs = .ok true ↔ p.act fs.isFolder = .ok true := by
    unfold isFolder
    split <;> simp_all
  rw [hact]
  simp only [act_eq_ok, FileSystem.isFolder, FileSystem.find, bind_eq_ok]
  constructor
  · rintro ⟨path, hpath, node, ⟨l, hl, hnode⟩, h⟩
    refine ⟨l, ⟨path, hpath, hl⟩, ?_⟩
    cases node with
    | file content => cases h
    | folder =>
      cases hn : fs.node? l with
      | none => simp [hn] at hnode
      | some found =>
        simp only [hn, Except.ok.injEq] at hnode
        rw [FileSystem.isFolderAt_iff, hn, hnode]
  · rintro ⟨l, ⟨path, hpath, hl⟩, hfolder⟩
    have hnode := FileSystem.isFolderAt_iff.mp hfolder
    exact ⟨path, hpath, .folder, ⟨l, hl, by simp [hnode]⟩, rfl⟩

theorem act_enumerate {l : Location} (hl : p.act fs.locate = .ok l)
    (hfolder : fs.isFolderAt l = true) : p.act fs.enumerate = .ok (fs.entriesAt l) := by
  obtain ⟨path, hpath, hl⟩ := act_eq_ok.mp hl
  have hnode := FileSystem.isFolderAt_iff.mp hfolder
  refine act_eq_ok.mpr ⟨path, hpath, ?_⟩
  exact bind_eq_ok.mpr ⟨l, hl, by simp [hnode]⟩

end Path

end ScriptDepot
