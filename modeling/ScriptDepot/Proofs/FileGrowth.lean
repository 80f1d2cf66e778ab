import Mathlib.Data.List.Induction
import ScriptDepot.Proofs.Backends
import ScriptDepot.Proofs.Capacity
/-!
# How many files clients can make

The cap bounds how many files come to lie below the folder of a shelf, wherever names lead.  It does
not bound the files elsewhere: a name that is absolute or goes up may lead out of the folder, where
nothing is counted, so every save under such a name may make one more file.
-/

namespace ScriptDepot

namespace Assoc

variable {κ ν : Type} [DecidableEq κ]

theorem countP_put_of_get? (p : κ × ν → Bool) {k : κ} {v old : ν} {entries : List (κ × ν)}
    (h : get? k entries = some old) (hp : p (k, v) = p (k, old)) :
    (put k v entries).countP p = entries.countP p := by
  induction entries with
  | nil => cases h
  | cons e rest ih =>
    obtain ⟨k', v'⟩ := e
    by_cases hk : k' = k
    · subst hk
      rw [get?, if_pos rfl] at h
      cases h
      rw [put, if_pos rfl, List.countP_cons, List.countP_cons, hp]
    · rw [get?, if_neg hk] at h
      rw [put, if_neg hk, List.countP_cons, List.countP_cons, ih h]

end Assoc

def Node.isFile : Node → Bool
  | .file _ => true
  | .folder => false

namespace FileSystem

variable {fs : FileSystem} {l m t : Location}

def fileCount (fs : FileSystem) (p : Location → Bool) : Nat :=
  fs.nodes.entries.countP fun entry => p entry.1 && entry.2.isFile

theorem fileCount_set_file (p : Location → Bool) (content : Bytes)
    (h : fs.isFolderAt t = false) :
    (fs.set t (.file content)).fileCount p =
      fs.fileCount p + if t ∉ fs.nodes.keys ∧ p t = true then 1 else 0 := by
  unfold fileCount
  by_cases hmem : t ∈ fs.nodes.keys
  · rw [if_neg (fun hnew => hnew.1 hmem), Nat.add_zero]
    have hne : t ≠ [] := by
      rintro rfl
      simp at h
    cases hget : fs.nodes.get? t with
    | none => exact absurd hmem (Assoc.get?_eq_none_iff.mp hget)
    | some old =>
      apply Assoc.countP_put_of_get? _ hget
      cases old with
      | file content => rfl
      | folder => simp [isFolderAt, node?, hne, hget] at h
  · have hput : (fs.set t (.file content)).nodes.entries =
        fs.nodes.entries ++ [(t, .file content)] := Assoc.put_of_not_mem hmem
    rw [hput, List.countP_append, List.countP_singleton]
    simp [hmem, Node.isFile]

theorem length_entriesAt_set (node : Node) :
    ((fs.set t node).entriesAt l).length =
      (fs.entriesAt l).length + if t ∉ fs.nodes.keys ∧ isIn l t = true then 1 else 0 := by
  rw [length_entriesAt, length_entriesAt]
  by_cases hmem : t ∈ fs.nodes.keys
  · have hkeys : (fs.set t node).nodes.keys = fs.nodes.keys := Assoc.keys_put_of_mem hmem
    rw [hkeys, if_neg (fun hnew => hnew.1 hmem), Nat.add_zero]
  · have hkeys : (fs.set t node).nodes.keys = fs.nodes.keys ++ [t] :=
      Assoc.keys_put_of_not_mem hmem
    rw [hkeys, List.countP_append, List.countP_singleton]
    simp [hmem]

/-! ## Trees -/

/-- The working folder is there, and so is the folder above every folder. -/
structure IsTree (fs : FileSystem) : Prop where
  here : fs.isFolderAt fs.here = true
  above : ∀ l, fs.isFolderAt l = true → fs.isFolderAt l.dropLast = true

theorem isTree_iff :
    fs.IsTree ↔ fs.isFolderAt fs.here = true ∧
      ∀ l ∈ fs.nodes.keys, fs.isFolderAt l = true → fs.isFolderAt l.dropLast = true := by
  refine ⟨fun h => ⟨h.here, fun l _ => h.above l⟩, fun ⟨hhere, habove⟩ => ⟨hhere, ?_⟩⟩
  intro l hl
  by_cases hmem : l ∈ fs.nodes.keys
  · exact habove l hmem hl
  · have hnone : fs.nodes.get? l = none := Assoc.get?_eq_none_iff.mpr hmem
    by_cases hroot : l = []
    · rw [hroot]
      exact isFolderAt_nil
    · simp [isFolderAt, node?, hroot, hnone] at hl

instance (fs : FileSystem) : Decidable fs.IsTree := decidable_of_iff _ isTree_iff.symm

theorem IsTree.set_file (h : fs.IsTree) (content : Bytes) (ht : fs.isFolderAt t = false) :
    (fs.set t (.file content)).IsTree := by
  refine ⟨?_, fun l hl => ?_⟩
  · rw [isFolderAt_set_file content ht]
    exact h.here
  · rw [isFolderAt_set_file content ht] at hl ⊢
    exact h.above l hl

theorem IsTree.isFolderAt_dropLast_of_walk (h : fs.IsTree) {names : List Bytes}
    (hl : fs.isFolderAt l = true) (hwalk : fs.walk l names = .ok t) :
    fs.isFolderAt t.dropLast = true := by
  induction names generalizing l with
  | nil =>
    cases hwalk
    exact h.above t hl
  | cons name rest ih =>
    obtain ⟨-, ⟨-, hrest⟩ | ⟨-, -, hrest⟩⟩ := walk_cons_eq_ok.mp hwalk
    · exact ih (h.above l hl) hrest
    · cases rest with
      | nil =>
        cases hrest
        rwa [List.dropLast_concat]
      | cons next others => exact ih (walk_cons_eq_ok.mp hrest).1 hrest

theorem IsTree.isFolderAt_dropLast (h : fs.IsTree) {path : Bytes} (hpath : fs.locate path = .ok t) :
    fs.isFolderAt t.dropLast = true := by
  obtain ⟨-, -, hwalk⟩ := locate_eq_ok.mp hpath
  refine h.isFolderAt_dropLast_of_walk ?_ hwalk
  unfold origin
  split
  · exact isFolderAt_nil
  · exact h.here

/-! ## Folders without folders in them -/

def isBelow (l m : Location) : Bool := l <+: m ∧ m ≠ l

theorem isBelow_iff : isBelow l m = true ↔ ∃ rest, rest ≠ [] ∧ m = l ++ rest := by
  rw [isBelow, decide_eq_true_eq]
  constructor
  · rintro ⟨⟨rest, rfl⟩, hne⟩
    refine ⟨rest, ?_, rfl⟩
    rintro rfl
    exact hne (List.append_nil l)
  · rintro ⟨rest, hrest, rfl⟩
    exact ⟨List.prefix_append l rest, by simpa using hrest⟩

theorem isIn_concat (l : Location) (name : Bytes) : isIn l (l ++ [name]) = true := by
  simp [isIn]

theorem IsTree.isFolderAt_below (h : fs.IsTree)
    (hbare : ∀ name, fs.isFolderAt (l ++ [name]) = false) {rest : Location} (hrest : rest ≠ []) :
    fs.isFolderAt (l ++ rest) = false := by
  induction rest using List.reverseRecOn with
  | nil => exact absurd rfl hrest
  | append_singleton rest name ih =>
    by_cases hempty : rest = []
    · rw [hempty, List.nil_append]
      exact hbare name
    · rw [Bool.eq_false_iff]
      intro hfolder
      have habove := h.above _ hfolder
      rw [← List.append_assoc, List.dropLast_concat, ih hempty] at habove
      cases habove

theorem IsTree.isIn_of_isBelow (h : fs.IsTree)
    (hbare : ∀ name, fs.isFolderAt (l ++ [name]) = false)
    (hparent : fs.isFolderAt t.dropLast = true) (hbelow : isBelow l t = true) :
    isIn l t = true := by
  obtain ⟨rest, hrest, rfl⟩ := isBelow_iff.mp hbelow
  obtain ⟨before, name, rfl⟩ := (List.eq_nil_or_concat rest).resolve_left hrest
  rw [List.concat_eq_append, ← List.append_assoc] at *
  rw [List.dropLast_concat] at hparent
  by_cases hempty : before = []
  · rw [hempty, List.append_nil]
    exact isIn_concat l name
  · rw [h.isFolderAt_below hbare hempty] at hparent
    cases hparent

theorem isFolderAt_of_entriesAt_eq_nil (h : fs.entriesAt l = []) (name : Bytes) :
    fs.isFolderAt (l ++ [name]) = false := by
  have hcount : fs.nodes.keys.countP (isIn l) = 0 := by
    rw [← length_entriesAt, h]
    rfl
  have hmem : l ++ [name] ∉ fs.nodes.keys :=
    fun hmem => List.countP_eq_zero.mp hcount _ hmem (isIn_concat l name)
  have hnone : fs.nodes.get? (l ++ [name]) = none := Assoc.get?_eq_none_iff.mpr hmem
  simp [isFolderAt, node?, hnone]

theorem eq_or_isIn_of_walk (hbare : ∀ name, fs.isFolderAt (l ++ [name]) = false)
    {names : List Bytes} (hup : up ∉ names) (hwalk : fs.walk l names = .ok t) :
    t = l ∨ isIn l t = true := by
  cases names with
  | nil =>
    cases hwalk
    exact .inl rfl
  | cons name rest =>
    rw [List.mem_cons, not_or] at hup
    obtain ⟨-, ⟨hname, -⟩ | ⟨-, -, hrest⟩⟩ := walk_cons_eq_ok.mp hwalk
    · exact absurd hname.symm hup.1
    · cases rest with
      | nil =>
        cases hrest
        exact .inr (isIn_concat l name)
      | cons next others =>
        have hfolder := (walk_cons_eq_ok.mp hrest).1
        rw [hbare name] at hfolder
        cases hfolder

end FileSystem

/-! ## The budget of a conversation -/

namespace Shelf

def fileCount (shelf : Shelf) (p : Location → Bool) : Nat :=
  match shelf with
  | .memory _ => 0
  | .folder _ files => files.fileCount p

/-- The folder `root` of a tree is at `l`, and there is no folder in it. -/
structure Flat (root : Path) (l : Location) (files : FileSystem) : Prop where
  tree : files.IsTree
  located : root.act files.locate = .ok l
  folder : files.isFolderAt l = true
  bare : ∀ name, files.isFolderAt (l ++ [name]) = false

namespace Flat

variable {root : Path} {l t : Location} {files : FileSystem} {name : Text}

theorem set_file (h : Flat root l files) (content : Bytes) (ht : files.isFolderAt t = false) :
    Flat root l (files.set t (.file content)) where
  tree := h.tree.set_file content ht
  located := (Path.act_locate_set_file content ht).mpr h.located
  folder := by rw [FileSystem.isFolderAt_set_file content ht, h.folder]
  bare := fun name => by rw [FileSystem.isFolderAt_set_file content ht, h.bare]

theorem isIn_of_isBelow (h : Flat root l files) (ht : (root.append name).act files.locate = .ok t)
    (hbelow : FileSystem.isBelow l t = true) : FileSystem.isIn l t = true := by
  obtain ⟨path, -, hpath⟩ := Path.act_eq_ok.mp ht
  exact h.tree.isIn_of_isBelow h.bare (h.tree.isFolderAt_dropLast hpath) hbelow

theorem isIn_of_not_strays (h : Flat root l files)
    (ht : (root.append name).act files.locate = .ok t) (hfile : files.isFolderAt t = false)
    (hname : Path.strays name = false) : FileSystem.isIn l t = true := by
  obtain ⟨names, hup, hwalk⟩ := Path.exists_walk_of_not_strays hname h.located ht
  rcases FileSystem.eq_or_isIn_of_walk h.bare hup hwalk with rfl | hin
  · rw [h.folder] at hfile
    cases hfile
  · exact hin

theorem stands (h : Flat root l files) : (Shelf.folder root files).Stands :=
  Path.isFolder_eq_true.mpr ⟨l, h.located, h.folder⟩

theorem held_eq (h : Flat root l files) :
    (Shelf.folder root files).held = (files.entriesAt l).length := by
  rw [held_folder h.located, FileSystem.length_entriesAt]

end Flat

/-- `charged` picks the scripts that may put a file at a location with the property `p` without
adding an entry to the folder. -/
def Charges (root : Path) (l : Location) (p : Location → Bool)
    (charged : NewScript → Bool) : Prop :=
  ∀ {files : FileSystem} {new : NewScript} {t : Location}, Flat root l files →
    (root.append new.name).act files.locate = .ok t → files.isFolderAt t = false →
    p t = true → FileSystem.isIn l t = false → charged new = true

theorem charges_below (root : Path) (l : Location) :
    Charges root l (FileSystem.isBelow l) fun _ => false := by
  intro files new t h ht _ hbelow hin
  rw [h.isIn_of_isBelow ht hbelow] at hin
  cases hin

theorem charges_all (root : Path) (l : Location) :
    Charges root l (fun _ => true) fun new => Path.strays new.name := by
  intro files new t h ht hfile _ hin
  cases hname : Path.strays new.name with
  | true => exact hname
  | false =>
    rw [h.isIn_of_not_strays ht hfile hname] at hin
    cases hin

/-- A file that a put makes is paid for: by a new entry of the folder, or by its script, which is
then charged. -/
theorem put_growth {root : Path} {l t : Location} {files : FileSystem} {new : NewScript}
    {p : Location → Bool} {charged : NewScript → Bool} (hcharges : Charges root l p charged)
    (h : Flat root l files) (ht : (root.append new.name).act files.locate = .ok t)
    (hfile : files.isFolderAt t = false) (bytes : Bytes) :
    (files.set t (.file bytes)).fileCount p + (files.entriesAt l).length ≤
      files.fileCount p + ((files.set t (.file bytes)).entriesAt l).length +
        [new].countP charged := by
  rw [FileSystem.fileCount_set_file p bytes hfile, FileSystem.length_entriesAt_set]
  by_cases hnew : t ∉ files.nodes.keys ∧ p t = true
  · rw [if_pos hnew]
    cases hin : FileSystem.isIn l t with
    | true =>
      rw [if_pos ⟨hnew.1, rfl⟩]
      omega
    | false =>
      rw [List.countP_singleton, if_pos (hcharges h ht hfile hnew.2 hin)]
      omega
  · rw [if_neg hnew]
    omega

end Shelf

namespace Store

variable {root : Path} {l : Location} {files : FileSystem}

theorem converse_growth {p : Location → Bool} {charged : NewScript → Bool}
    (hcharges : Shelf.Charges root l p charged) {store : Store}
    (hshelf : store.shelf = .folder root files) (h : Shelf.Flat root l files)
    (frames : List (Frame × Option Text)) :
    ∃ after, (store.converse frames).2.shelf = .folder root after ∧ Shelf.Flat root l after ∧
      after.fileCount p + (files.entriesAt l).length ≤
        files.fileCount p + (after.entriesAt l).length +
          (store.savedScripts frames).countP charged := by
  -- By how much the files outnumber the entries only grows with a script that is charged.
  induction frames generalizing store files with
  | nil => exact ⟨files, hshelf, h, by omega⟩
  | cons f rest ih =>
    obtain ⟨frame, peer⟩ := f
    rw [savedScripts_cons]
    have hrest : (store.converse ((frame, peer) :: rest)).2 =
        ((store.handle frame peer).value.2.converse rest).2 := rfl
    rw [hrest]
    rcases store.handle_saved frame peer with ⟨hsaved, hkept⟩ | ⟨new, hsaved, hsave⟩
    · rw [hsaved, hkept]
      exact ih hshelf h
    · obtain ⟨count, bytes, shelf, -, -, -, hput, hafter⟩ := outcome_save_eq_ok.mp hsave
      rw [hshelf] at hput
      obtain ⟨t, ht, hfile, rfl⟩ := Shelf.put_folder_eq_ok.mp hput
      have hnext : (store.handle frame peer).value.2.shelf =
          .folder root (files.set t (.file bytes)) := by rw [hafter]
      obtain ⟨after, hlast, hflat, hgrowth⟩ := ih hnext (h.set_file bytes hfile)
      refine ⟨after, hlast, hflat, ?_⟩
      have hstep := Shelf.put_growth hcharges h ht hfile bytes
      rw [hsaved, Option.toList_some, List.countP_append]
      omega

/-- From an empty folder a conversation makes no more files below it than the cap allows.  In the
whole file system it makes at most one more for each script that was saved under a name which may
lead out of the folder. -/
theorem files_within_cap (store : Store) (root : Path) (files : FileSystem) (l : Location)
    (hshelf : store.shelf = .folder root files) (htree : files.IsTree)
    (hl : root.act files.locate = .ok l) (hfolder : files.isFolderAt l = true)
    (hempty : files.entriesAt l = []) (frames : List (Frame × Option Text)) :
    let last := (store.converse frames).2.shelf
    (∃ after, last = .folder root after) ∧
      last.fileCount (FileSystem.isBelow l) ≤
        store.shelf.fileCount (FileSystem.isBelow l) + store.cap.toNat ∧
      last.fileCount (fun _ => true) ≤ store.shelf.fileCount (fun _ => true) + store.cap.toNat +
        (store.savedScripts frames).countP fun new => Path.strays new.name := by
  intro last
  have hflat : Shelf.Flat root l files :=
    ⟨htree, hl, hfolder, fun name => FileSystem.isFolderAt_of_entriesAt_eq_nil hempty name⟩
  obtain ⟨after, (hlast : last = _), hafter, hbelow⟩ :=
    converse_growth (Shelf.charges_below root l) hshelf hflat frames
  obtain ⟨after', hlast', -, hall⟩ :=
    converse_growth (Shelf.charges_all root l) hshelf hflat frames
  cases hlast.symm.trans hlast'
  have hheld : ((after.entriesAt l).length : Int) ≤ max 0 store.cap := by
    have hbound := (converse_keeps_cap (hshelf ▸ hflat.stands) frames).2
    change (last.held : Int) ≤ _ at hbound
    rwa [hlast, hafter.held_eq, hshelf, hflat.held_eq, hempty] at hbound
  have hnone : (store.savedScripts frames).countP (fun _ => false) = 0 :=
    List.countP_eq_zero.mpr fun _ _ h => by cases h
  rw [hempty, List.length_nil] at hbelow hall
  rw [hnone] at hbelow
  rw [hlast, hshelf]
  simp only [Shelf.fileCount]
  exact ⟨⟨after, rfl⟩, by omega, by omega⟩

def scriptsAt : Location := [("work" : Text).utf8, ("scripts" : Text).utf8]

def oneFolder : FileSystem where
  nodes := ⟨[([("work" : Text).utf8], .folder), (scriptsAt, .folder)], by decide⟩
  here := [("work" : Text).utf8]

def oneInFolder : Store := ⟨.folder (Path.parse "scripts") oneFolder, 1, false⟩

def outwardSaves : List (Frame × Option Text) :=
  [(saving "../a", none), (saving "b", none), (saving "../c", none)]

theorem files_within_cap_outwardSaves :
    oneFolder.IsTree ∧ (Path.parse "scripts").act oneFolder.locate = .ok scriptsAt ∧
      oneFolder.isFolderAt scriptsAt = true ∧ oneFolder.entriesAt scriptsAt = [] ∧
      (oneInFolder.converse outwardSaves).2.shelf.fileCount (FileSystem.isBelow scriptsAt) ≤ 1 ∧
      (oneInFolder.converse outwardSaves).2.shelf.fileCount (fun _ => true) ≤ 2 := by
  have htree : oneFolder.IsTree := by decide +kernel
  have hl : (Path.parse "scripts").act oneFolder.locate = .ok scriptsAt :=
    toOption_eq_some.mp (by decide +kernel)
  have hfolder : oneFolder.isFolderAt scriptsAt = true := by decide +kernel
  have hempty : oneFolder.entriesAt scriptsAt = [] := by decide +kernel
  have hstrays : (oneInFolder.savedScripts outwardSaves).countP
      (fun new => Path.strays new.name) = 1 := by decide +kernel
  obtain ⟨-, hbelow, hall⟩ :=
    files_within_cap oneInFolder _ oneFolder scriptsAt rfl htree hl hfolder hempty outwardSaves
  rw [hstrays] at hall
  exact ⟨htree, hl, hfolder, hempty, hbelow, hall⟩

/-- Files outside the folder are not counted: with room for one script two files are made. -/
theorem cap_misses_files_outside :
    (Path.parse "scripts").enumerate oneFolder = .ok [] ∧
      ¬ ((oneInFolder.converse [(saving "../a", none), (saving "../b", none)]).2.shelf.fileCount
          (fun _ => true) : Int) ≤
        oneInFolder.shelf.fileCount (fun _ => true) + oneInFolder.cap := by
  have hempty : (Path.parse "scripts").enumerate oneFolder = .ok [] :=
    toOption_eq_some.mp (by decide +kernel)
  exact ⟨hempty, by decide +kernel⟩

end Store

end ScriptDepot
