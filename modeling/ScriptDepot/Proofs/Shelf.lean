import ScriptDepot.Shelf
import ScriptDepot.Proofs.FileSystem
/-!
# What a shelf holds

A shelf stands when it is in memory or its folder is there.  Counting a standing shelf gives what it
holds, unless folders cannot be enumerated, and a put keeps it standing and adds one entry at most,
wherever the name leads.
-/

namespace ScriptDepot

namespace Shelf

/-- How many entries there are: names in memory, or nodes directly in the folder. -/
def held : Shelf → Nat
  | .memory scripts => scripts.keys.length
  | .folder root files =>
    match root.act files.locate with
    | .ok l => files.nodes.keys.countP fun m => m ≠ [] ∧ m.dropLast = l
    | .error _ => 0

def listable : Shelf → Bool
  | .memory _ => true
  | .folder _ files => files.listable

/-- The shelf is in memory, or its folder is there. -/
def Stands : Shelf → Prop
  | .memory _ => True
  | .folder root files => root.isFolder files = .ok true

theorem put_folder_eq_ok {root : Path} {files : FileSystem} {name : Text} {bytes : Bytes}
    {after : Shelf} :
    (Shelf.folder root files).put name bytes = .ok after ↔
      ∃ l, (root.append name).act files.locate = .ok l ∧ files.isFolderAt l = false ∧
        after = .folder root (files.set l (.file bytes)) := by
  have hput : (Shelf.folder root files).put name bytes = .ok after ↔
      ∃ written, (root.append name).act (files.writeFile · bytes) = .ok written ∧
        after = .folder root written := by
    simp only [put]
    split <;> rename_i h <;> simp only [h] <;> simp [eq_comm]
  rw [hput]
  simp only [Path.act_eq_ok, FileSystem.writeFile_eq_ok]
  constructor
  · rintro ⟨_, ⟨path, hpath, l, hl, hfolder, rfl⟩, h⟩
    exact ⟨l, ⟨path, hpath, hl⟩, hfolder, h⟩
  · rintro ⟨l, ⟨path, hpath, hl⟩, hfolder, h⟩
    exact ⟨_, ⟨path, hpath, l, hl, hfolder, rfl⟩, h⟩

theorem get_folder_eq_ok {root : Path} {files : FileSystem} {name : Text} {bytes : Bytes} :
    (Shelf.folder root files).get name = .ok bytes ↔
      ∃ l, (root.append name).act files.locate = .ok l ∧ files.node? l = some (.file bytes) := by
  have hget : (Shelf.folder root files).get name = .ok bytes ↔
      (root.append name).act files.readFile = .ok bytes := by
    simp only [get]
    split
    · rename_i h
      simp [h]
    · rename_i h
      simp only [h]
      split <;> simp
    · rename_i h
      simp [h]
  rw [hget]
  simp only [Path.act_eq_ok, FileSystem.readFile_eq_ok]
  constructor
  · rintro ⟨path, hpath, l, hl, hnode⟩
    exact ⟨l, ⟨path, hpath, hl⟩, hnode⟩
  · rintro ⟨l, ⟨path, hpath, hl⟩, hnode⟩
    exact ⟨path, hpath, l, hl, hnode⟩

theorem held_folder {root : Path} {files : FileSystem} {l : Location}
    (hl : root.act files.locate = .ok l) :
    (Shelf.folder root files).held = files.nodes.keys.countP (FileSystem.isIn l) := by
  simp only [held, hl]
  rfl

theorem count_folder {root : Path} {files : FileSystem} {l : Location}
    (hlist : files.listable = true) (hl : root.act files.locate = .ok l)
    (hfolder : files.isFolderAt l = true) :
    (Shelf.folder root files).count = .ok (files.entriesAt l).length := by
  simp [count, entries, Path.enumerate, hlist, Path.act_enumerate hl hfolder]

theorem count_eq_held {shelf : Shelf} (h : shelf.Stands) (hlist : shelf.listable = true) :
    shelf.count = .ok shelf.held := by
  cases shelf with
  | memory scripts => simp [count, held, Ledger.size, Ledger.keys, Assoc.keys]
  | folder root files =>
    obtain ⟨l, hl, hfolder⟩ := Path.isFolder_eq_true.mp h
    rw [count_folder hlist hl hfolder, held_folder hl, FileSystem.length_entriesAt]

theorem entries_unlistable (root : Path) {files : FileSystem} (h : files.listable = false) :
    entries root files =
      .error (.refusal (.storage (.cannotEnumerate root.text ⟨.denied, root.text⟩))) := by
  simp [entries, Path.enumerate, h]

theorem count_unlistable (root : Path) {files : FileSystem} (h : files.listable = false) :
    (Shelf.folder root files).count =
      .error (.refusal (.storage (.cannotEnumerate root.text ⟨.denied, root.text⟩))) := by
  simp only [count, entries_unlistable root h]

theorem count_of_not_listable {shelf : Shelf} (hlist : shelf.listable = false) :
    ∃ fault, shelf.count = .error (Refusal.storage fault) := by
  cases shelf with
  | memory scripts => cases hlist
  | folder root files =>
    exact ⟨.cannotEnumerate root.text ⟨.denied, root.text⟩, count_unlistable root hlist⟩

theorem put_stands {shelf after : Shelf} {name : Text} {bytes : Bytes} (h : shelf.Stands)
    (hput : shelf.put name bytes = .ok after) :
    after.Stands ∧ after.listable = shelf.listable ∧
      shelf.held ≤ after.held ∧ after.held ≤ shelf.held + 1 := by
  cases shelf with
  | memory scripts =>
    cases hput
    refine ⟨trivial, rfl, ?_⟩
    simp only [held, Ledger.keys, Ledger.put]
    by_cases hname : name ∈ Assoc.keys scripts.entries
    · rw [Assoc.keys_put_of_mem hname]
      omega
    · rw [Assoc.keys_put_of_not_mem hname, List.length_append, List.length_singleton]
      omega
  | folder root files =>
    obtain ⟨m, -, hm, rfl⟩ := put_folder_eq_ok.mp hput
    obtain ⟨l, hl, hfolder⟩ := Path.isFolder_eq_true.mp h
    have hl' := (Path.act_locate_set_file bytes hm).mpr hl
    have hfolder' := (FileSystem.isFolderAt_set_file bytes hm l).trans hfolder
    refine ⟨Path.isFolder_eq_true.mpr ⟨l, hl', hfolder'⟩, rfl, ?_⟩
    rw [held_folder hl, held_folder hl']
    exact FileSystem.countP_keys_set_le _ _ _

end Shelf

end ScriptDepot
