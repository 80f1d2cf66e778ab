import Mathlib.Data.List.Forall2
import ScriptDepot.Proofs.Path
import ScriptDepot.Proofs.Shelf
/-!
# A folder that mirrors a shelf in memory

A folder mirrors scripts in memory when its entries are the names of the scripts, in the order in
which they were first put, and the files hold what is in memory.  Plain names keep it so: they are
looked up, put and counted alike on both sides, and only the listings differ, since the folder lists
stems in the order of the bytes of the names.
-/

namespace ScriptDepot

namespace FileSystem

variable {fs : FileSystem}

theorem nameIn_eq_some {l m : Location} {name : Bytes} :
    nameIn l m = some name ↔ m = l ++ [name] := by
  unfold nameIn
  constructor
  · intro h
    split at h
    · rename_i hm
      obtain ⟨before, rfl⟩ := List.getLast?_eq_some_iff.mp h
      rw [← hm.2, List.dropLast_concat]
    · cases h
  · rintro rfl
    simp

theorem mem_filterMap_nameIn {l : Location} {name : Bytes} {keys : List Location} :
    name ∈ keys.filterMap (nameIn l) ↔ l ++ [name] ∈ keys := by
  simp only [List.mem_filterMap, nameIn_eq_some, exists_eq_right]

theorem node?_eq_none_iff {l : Location} {name : Bytes} :
    fs.node? (l ++ [name]) = none ↔ name ∉ fs.nodes.keys.filterMap (nameIn l) := by
  rw [mem_filterMap_nameIn, node?, if_neg (by simp)]
  exact Assoc.get?_eq_none_iff

end FileSystem

theorem Path.act_readFile {p : Path} {fs : FileSystem} {l : Location}
    (hl : p.act fs.locate = .ok l) :
    p.act fs.readFile =
      match fs.node? l with
      | none => .error (.os ⟨.noEntry, p.text⟩)
      | some .folder => .error (.os ⟨.isFolder, p.text⟩)
      | some (.file content) => .ok content := by
  obtain ⟨path, hpath, hl⟩ := act_eq_ok.mp hl
  have hread : fs.readFile path =
      match fs.node? l with
      | none => .error .noEntry
      | some .folder => .error .isFolder
      | some (.file content) => .ok content := by
    simp only [FileSystem.readFile, FileSystem.find, hl, bind, Except.bind]
    rcases fs.node? l with _ | _ | _ <;> rfl
  simp only [act, hpath, bind, Except.bind, hread]
  rcases fs.node? l with _ | _ | _ <;> rfl

namespace Shelf

/-- The folder `root`, which is at `l`, mirrors the scripts. -/
structure Mirrors (root : Path) (l : Location) (scripts : Ledger Text Bytes)
    (files : FileSystem) : Prop where
  located : root.act files.locate = .ok l
  folder : files.isFolderAt l = true
  listable : files.listable = true
  plain : ∀ name ∈ scripts.keys, root.IsPlain name
  names : files.nodes.keys.filterMap (FileSystem.nameIn l) = scripts.keys.map Text.utf8
  contents : ∀ name, root.IsPlain name →
    files.node? (l ++ [name.utf8]) = (scripts.get? name).map .file

theorem mirrors_empty {root : Path} {files : FileSystem} (h : root.enumerate files = .ok []) :
    ∃ l, Mirrors root l .empty files := by
  unfold Path.enumerate at h
  split at h
  · rename_i hlistable
    obtain ⟨path, hpath, h⟩ := Path.act_eq_ok.mp h
    obtain ⟨l, hl, h⟩ := bind_eq_ok.mp h
    split at h
    · cases h
    · cases h
    · rename_i hnode
      have hempty : files.nodes.keys.filterMap (FileSystem.nameIn l) = [] := by
        have hentries : files.entriesAt l = [] := Except.ok.inj h
        exact List.length_eq_zero_iff.mp (by
          rw [← Ascending.length_sort (Ascending.lexLe UInt8.toNat)]
          exact congrArg List.length hentries)
      refine ⟨l, ?_, ?_, hlistable, ?_, hempty, ?_⟩
      · exact Path.act_eq_ok.mpr ⟨path, hpath, hl⟩
      · exact FileSystem.isFolderAt_iff.mpr hnode
      · intro name hname
        cases hname
      · intro name _
        have habsent : name.utf8 ∉ files.nodes.keys.filterMap (FileSystem.nameIn l) := by
          simp [hempty]
        exact FileSystem.node?_eq_none_iff.mpr habsent
  · cases h

namespace Mirrors

variable {root : Path} {l : Location} {scripts : Ledger Text Bytes} {files : FileSystem}

theorem act_locate (h : Mirrors root l scripts files) {name : Text} (hname : root.IsPlain name) :
    (root.append name).act files.locate = .ok (l ++ [name.utf8]) :=
  hname.act_locate h.located h.folder

theorem mem_keys (h : Mirrors root l scripts files) {name : Text} (hname : root.IsPlain name) :
    l ++ [name.utf8] ∈ files.nodes.keys ↔ name ∈ scripts.keys := by
  rw [← FileSystem.mem_filterMap_nameIn, h.names, List.mem_map]
  constructor
  · rintro ⟨other, hother, heq⟩
    have hsame := Text.utf8_inj (h.plain other hother).scalar hname.scalar heq
    exact hsame ▸ hother
  · intro hmem
    exact ⟨name, hmem, rfl⟩

theorem isFolderAt_entry (h : Mirrors root l scripts files) {name : Text}
    (hname : root.IsPlain name) : files.isFolderAt (l ++ [name.utf8]) = false := by
  rw [FileSystem.isFolderAt, h.contents name hname]
  cases scripts.get? name <;> simp

theorem get_eq (h : Mirrors root l scripts files) {name : Text} (hname : root.IsPlain name) :
    (Shelf.folder root files).get name = (Shelf.memory scripts).get name := by
  simp only [get, Path.act_readFile (h.act_locate hname), h.contents name hname]
  cases scripts.get? name with
  | none => simp
  | some bytes => simp

theorem count_eq (h : Mirrors root l scripts files) :
    (Shelf.folder root files).count = (Shelf.memory scripts).count := by
  rw [count_folder h.listable h.located h.folder, FileSystem.entriesAt, Ascending.length_sort,
    h.names, List.length_map, Ledger.keys, Assoc.keys, List.length_map]
  rfl

theorem put (h : Mirrors root l scripts files) {name : Text} (hname : root.IsPlain name)
    (bytes : Bytes) :
    ∃ after, (Shelf.folder root files).put name bytes = .ok (.folder root after) ∧
      Mirrors root l (scripts.put name bytes) after := by
  have hfile := h.isFolderAt_entry hname
  refine ⟨files.set (l ++ [name.utf8]) (.file bytes),
    put_folder_eq_ok.mpr ⟨_, h.act_locate hname, hfile, rfl⟩, ?_, ?_, h.listable, ?_, ?_, ?_⟩
  · exact (Path.act_locate_set_file bytes hfile).mpr h.located
  · rw [FileSystem.isFolderAt_set_file bytes hfile, h.folder]
  · intro other hother
    rcases Assoc.mem_keys_put.mp hother with rfl | hother
    · exact hname
    · exact h.plain other hother
  · -- A name is new to the folder exactly when it is new in memory, and both add it at the end.
    by_cases hmem : name ∈ scripts.keys
    · have hentry : l ++ [name.utf8] ∈ files.nodes.keys := (h.mem_keys hname).mpr hmem
      have hnodes : (files.set (l ++ [name.utf8]) (.file bytes)).nodes.keys = files.nodes.keys :=
        Assoc.keys_put_of_mem hentry
      have hkeys : (scripts.put name bytes).keys = scripts.keys := Assoc.keys_put_of_mem hmem
      rw [hnodes, hkeys, h.names]
    · have hentry : l ++ [name.utf8] ∉ files.nodes.keys := fun he => hmem ((h.mem_keys hname).mp he)
      have hnodes : (files.set (l ++ [name.utf8]) (.file bytes)).nodes.keys =
          files.nodes.keys ++ [l ++ [name.utf8]] := Assoc.keys_put_of_not_mem hentry
      have hkeys : (scripts.put name bytes).keys = scripts.keys ++ [name] :=
        Assoc.keys_put_of_not_mem hmem
      have hone : FileSystem.nameIn l (l ++ [name.utf8]) = some name.utf8 :=
        FileSystem.nameIn_eq_some.mpr rfl
      rw [hnodes, hkeys, List.filterMap_append, h.names, List.map_append]
      simp [hone]
  · intro other hother
    by_cases hsame : other = name
    · subst hsame
      rw [FileSystem.node?_set_self _ (by simp)]
      simp [Ledger.put, Ledger.get?]
    · have hne : l ++ [other.utf8] ≠ l ++ [name.utf8] := by
        intro heq
        have hbytes : other.utf8 = name.utf8 := by simpa using heq
        exact hsame (Text.utf8_inj hother.scalar hname.scalar hbytes)
      rw [FileSystem.node?_set_of_ne _ hne, h.contents other hother]
      simp only [Ledger.get?, Ledger.put, Assoc.get?_put_of_ne hsame]

end Mirrors

/-! ## Listing -/

/-- The stems of the names, in the order of the UTF-8 bytes of the names. -/
def IsListing (names stems : List Text) : Prop :=
  ∃ ordered : List Text, ordered.Perm names ∧ ordered.Pairwise (fun a b => a.utf8 ≤ b.utf8) ∧
    List.Forall₂ Path.IsStem ordered stems

def byBytes (names : List Text) : List Text :=
  Ascending.sort (fun a b => Ascending.lexLe UInt8.toNat a.utf8 b.utf8) names

theorem isListing_byBytes (names : List Text) :
    IsListing names ((byBytes names).map Path.stem) := by
  refine ⟨byBytes names, Ascending.sort_perm _ names, ?_, ?_⟩
  · have hsorted := Ascending.pairwise_sort
      (fun a b : Text => Ascending.lexLe UInt8.toNat a.utf8 b.utf8)
      (fun a b c => Ascending.lexLe_trans _ a.utf8 b.utf8 c.utf8)
      (fun a b => Ascending.lexLe_total _ a.utf8 b.utf8) names
    exact hsorted.imp Ascending.lexLe_toNat_iff.mp
  · rw [List.forall₂_map_right_iff, List.forall₂_same]
    intro name _
    exact Path.isStem_stem name

theorem listedName_utf8 {name : Text} (h : name.isScalar = true) :
    listedName name.utf8 = some (Path.stem name) := by
  simp only [listedName, Text.ofFileBytes_utf8 h, Path.isScalar_stem h, if_true]

theorem filterMap_listedName {names : List Text} (h : ∀ name ∈ names, name.isScalar = true) :
    (names.map Text.utf8).filterMap listedName = names.map Path.stem := by
  induction names with
  | nil => rfl
  | cons name rest ih =>
    rw [List.forall_mem_cons] at h
    rw [List.map_cons, List.map_cons, List.filterMap_cons_some (listedName_utf8 h.1), ih h.2]

theorem Mirrors.outcome_keys {root : Path} {l : Location} {scripts : Ledger Text Bytes}
    {files : FileSystem} (h : Mirrors root l scripts files) :
    (Shelf.folder root files).keys.outcome = .ok ((byBytes scripts.keys).map Path.stem) := by
  have hfolder : root.isFolder files = .ok true :=
    Path.isFolder_eq_true.mpr ⟨l, h.located, h.folder⟩
  have hentries : entries root files = .ok ((byBytes scripts.keys).map Text.utf8) := by
    simp only [entries, Path.enumerate, h.listable, if_true,
      Path.act_enumerate h.located h.folder, FileSystem.entriesAt, h.names, Ascending.sort_map]
    rfl
  have hscalar : ∀ name ∈ byBytes scripts.keys, name.isScalar = true := by
    intro name hname
    exact (h.plain name ((Ascending.mem_sort _).mp hname)).scalar
  simp only [keys, hfolder, hentries, filterMap_listedName hscalar]

end Shelf

end ScriptDepot
