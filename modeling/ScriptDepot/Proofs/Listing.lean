import Mathlib.Data.List.Nodup
import Mathlib.Data.List.Pairwise
import ScriptDepot.Proofs.FileGrowth
import ScriptDepot.Proofs.FolderContract
import ScriptDepot.Proofs.Utf8.FileNames
/-!
# What a folder lists

An entry is listed by its raw name up to the last dot when that much of the name is UTF-8, and left
out otherwise.  So every entry with a UTF-8 name is listed, and one whose name is not UTF-8 is
listed too when only what follows the last dot is to blame.

In a folder of files the listed names can all be looked up, and no name is listed twice, exactly
when no name is cut.  A name that is cut lists a shorter one; if that can be looked up it is an
entry as well, which is cut in its turn, or lists the same name once more.
-/

namespace ScriptDepot

/-! ## Raw stems -/

namespace FileSystem

/-- `stem` is the raw name cut at its last dot, or all of it when that dot is its first or last byte
or there is none. -/
def IsRawStem (name stem : Bytes) : Prop :=
  (∃ suffix, name = stem ++ 0x2E :: suffix ∧ 0x2E ∉ suffix ∧ stem ≠ [] ∧ suffix ≠ []) ∨
    (stem = name ∧ ∀ before suffix, name = before ++ 0x2E :: suffix → 0x2E ∉ suffix →
      before = [] ∨ suffix = [])

end FileSystem

namespace Text

theorem dot_mem_fileBytes {t : Text} :
    0x2E ∈ t.flatMap CodePoint.fileBytes ↔ ('.' : CodePoint) ∈ t := by
  constructor
  · intro hmem
    obtain ⟨c, hc, hval⟩ := exists_of_mem_fileBytes hmem (by decide)
    have heq : c = ('.' : CodePoint) := CodePoint.ext hval
    exact heq ▸ hc
  · intro hmem
    exact List.mem_flatMap.mpr ⟨_, hmem, by decide⟩

theorem flatMap_fileBytes_eq_nil {t : Text} : t.flatMap CodePoint.fileBytes = [] ↔ t = [] := by
  constructor
  · intro h
    exact eq_of_flatMap_fileBytes_eq (s := []) (by simp) h
  · rintro rfl
    rfl

theorem utf8_eq_nil {t : Text} (ht : t.isScalar = true) : t.utf8 = [] ↔ t = [] := by
  rw [← flatMap_fileBytes ht, flatMap_fileBytes_eq_nil]

end Text

namespace Path

variable {entry : Bytes} {name : Text}

theorem isRawStem_of_stem (hname : name.isScalar = true)
    (h : stem (Text.ofFileBytes entry) = name) : FileSystem.IsRawStem entry name.utf8 := by
  subst h
  rcases isStem_stem (Text.ofFileBytes entry) with
    ⟨suffix, htext, hsuffix, hstem, hne⟩ | ⟨hwhole, hend⟩
  · refine .inl ⟨suffix.flatMap CodePoint.fileBytes, ?_, ?_, ?_, ?_⟩
    · have hbytes := Text.flatMap_ofFileBytes entry
      rw [htext, Text.flatMap_append_dot, Text.flatMap_fileBytes hname] at hbytes
      exact hbytes.symm
    · exact mt Text.dot_mem_fileBytes.mp hsuffix
    · exact mt (Text.utf8_eq_nil hname).mp hstem
    · exact mt Text.flatMap_fileBytes_eq_nil.mp hne
  · refine .inr ⟨?_, ?_⟩
    · rw [← Text.flatMap_fileBytes hname, hwhole, Text.flatMap_ofFileBytes]
    · intro before suffix hentry hsuffix
      obtain ⟨rest, htext, hrest⟩ := Text.ofFileBytes_append_dot before suffix
      rw [← hentry] at htext
      rw [← hrest] at hsuffix ⊢
      rw [← Text.flatMap_ofFileBytes before]
      exact (hend _ rest htext (mt Text.dot_mem_fileBytes.mpr hsuffix)).imp
        Text.flatMap_fileBytes_eq_nil.mpr Text.flatMap_fileBytes_eq_nil.mpr

theorem stem_of_isRawStem (hname : name.isScalar = true)
    (h : FileSystem.IsRawStem entry name.utf8) : stem (Text.ofFileBytes entry) = name := by
  rcases h with ⟨suffix, rfl, hsuffix, hstem, hne⟩ | ⟨rfl, hend⟩
  · obtain ⟨rest, htext, rfl⟩ := Text.ofFileBytes_append_dot name.utf8 suffix
    rw [htext, Text.ofFileBytes_utf8 hname,
      stem_append_dot name (mt Text.dot_mem_fileBytes.mpr hsuffix), if_neg]
    rintro (rfl | rfl)
    · exact hne rfl
    · exact hstem rfl
  · rw [Text.ofFileBytes_utf8 hname]
    rcases isStem_stem name with ⟨suffix, htext, hsuffix, hstem, hne⟩ | ⟨hwhole, -⟩
    · have hbytes : name.utf8 = (stem name).flatMap CodePoint.fileBytes ++
          0x2E :: suffix.flatMap CodePoint.fileBytes :=
        calc name.utf8 = name.flatMap CodePoint.fileBytes := (Text.flatMap_fileBytes hname).symm
          _ = (stem name ++ "." ++ suffix).flatMap CodePoint.fileBytes := congrArg _ htext
          _ = _ := Text.flatMap_append_dot _ _
      rcases hend _ _ hbytes (mt Text.dot_mem_fileBytes.mp hsuffix) with hempty | hempty
      · exact absurd (Text.flatMap_fileBytes_eq_nil.mp hempty) hstem
      · exact absurd (Text.flatMap_fileBytes_eq_nil.mp hempty) hne
    · exact hwhole

theorem stem_ofFileBytes (hname : name.isScalar = true) :
    stem (Text.ofFileBytes entry) = name ↔ FileSystem.IsRawStem entry name.utf8 :=
  ⟨isRawStem_of_stem hname, stem_of_isRawStem hname⟩

end Path

/-! ## Listed names -/

namespace Shelf

variable {entry : Bytes} {name : Text}

theorem listedName_eq_some_iff_stem :
    listedName entry = some name ↔
      Path.stem (Text.ofFileBytes entry) = name ∧ name.isScalar = true := by
  unfold listedName
  dsimp only
  split
  · rename_i hscalar
    rw [Option.some.injEq]
    constructor
    · rintro rfl
      exact ⟨rfl, hscalar⟩
    · exact And.left
  · rename_i hscalar
    simp only [reduceCtorEq, false_iff, not_and]
    rintro rfl
    exact hscalar

theorem listedName_eq_some :
    listedName entry = some name ↔
      name.isScalar = true ∧ FileSystem.IsRawStem entry name.utf8 := by
  rw [listedName_eq_some_iff_stem, and_comm]
  exact and_congr_right Path.stem_ofFileBytes

theorem listedName_of_decode {text : Text} (h : Utf8.decode .strict entry = .ok text) :
    listedName entry = some (Path.stem text) := by
  obtain ⟨hscalar, rfl⟩ := Utf8.decode_strict_eq_ok.mp h
  exact listedName_utf8 hscalar

theorem listedName_of_not_decode (h : ∀ text, Utf8.decode .strict entry ≠ .ok text) :
    listedName entry = some name ↔
      name.isScalar = true ∧ name ≠ [] ∧
        ∃ suffix, entry = name.utf8 ++ 0x2E :: suffix ∧ 0x2E ∉ suffix := by
  rw [listedName_eq_some]
  refine and_congr_right fun hname => ?_
  constructor
  · rintro (⟨suffix, hentry, hsuffix, hstem, -⟩ | ⟨hwhole, -⟩)
    · exact ⟨mt (Text.utf8_eq_nil hname).mpr hstem, suffix, hentry, hsuffix⟩
    · exact absurd (Utf8.decode_strict_eq_ok.mpr ⟨hname, hwhole⟩) (h name)
  · rintro ⟨hne, suffix, hentry, hsuffix⟩
    refine .inl ⟨suffix, hentry, hsuffix, mt (Text.utf8_eq_nil hname).mp hne, ?_⟩
    rintro rfl
    -- a dot at the very end would leave the whole name UTF-8
    refine h (name ++ ".") (Utf8.decode_strict_eq_ok.mpr ⟨?_, ?_⟩)
    · rw [Text.isScalar, List.all_append, Bool.and_eq_true]
      exact ⟨hname, by decide⟩
    · rw [hentry, Text.utf8, List.flatMap_append]
      rfl

theorem keys_folder {root : Path} {files : FileSystem} {l : Location}
    (hl : root.act files.locate = .ok l) (hfolder : files.isFolderAt l = true)
    (hlist : files.listable = true) :
    (Shelf.folder root files).keys =
      { outcome := .ok ((files.entriesAt l).filterMap listedName)
        log := ((files.entriesAt l).filter (listedName · = none)).map (skipped root) } := by
  have hroot : root.isFolder files = .ok true := Path.isFolder_eq_true.mpr ⟨l, hl, hfolder⟩
  have hentries : entries root files = .ok (files.entriesAt l) := by
    simp [entries, Path.enumerate, hlist, Path.act_enumerate hl hfolder]
  simp only [keys, hroot, hentries]

theorem length_filterMap_add_filter {α β : Type} (f : α → Option β) [DecidablePred (f · = none)]
    (l : List α) : (l.filterMap f).length + (l.filter (f · = none)).length = l.length := by
  induction l with
  | nil => rfl
  | cons a rest ih => cases ha : f a <;> simp [ha, ← ih] <;> omega

/-- A folder lists its entries in order, each by its stem.  What is not listed is warned of, so
nothing that is counted goes missing.  An entry whose name is UTF-8 is always listed; one whose name
is not is listed just when its name is UTF-8 up to the last dot. -/
theorem keys_list_utf8_stems (root : Path) (files : FileSystem) (l : Location)
    (hl : root.act files.locate = .ok l) (hfolder : files.isFolderAt l = true)
    (hlist : files.listable = true) :
    let shelf := Shelf.folder root files
    let found := files.entriesAt l
    shelf.keys =
        { outcome := .ok (found.filterMap listedName)
          log := (found.filter (listedName · = none)).map (skipped root) } ∧
      shelf.count =
        .ok ((found.filterMap listedName).length + (found.filter (listedName · = none)).length) ∧
      (∀ entry ∈ found, ∀ text, Utf8.decode .strict entry = .ok text →
        listedName entry = some (Path.stem text)) ∧
      ∀ entry ∈ found, (∀ text, Utf8.decode .strict entry ≠ .ok text) →
        ∀ name, listedName entry = some name ↔
          name.isScalar = true ∧ name ≠ [] ∧
            ∃ suffix, entry = name.utf8 ++ 0x2E :: suffix ∧ 0x2E ∉ suffix := by
  intro shelf found
  refine ⟨keys_folder hl hfolder hlist, ?_, ?_, ?_⟩
  · rw [length_filterMap_add_filter]
    exact count_folder hlist hl hfolder
  · intro entry _ text htext
    exact listedName_of_decode htext
  · intro entry _ hentry name
    exact listedName_of_not_decode hentry

def folderOf (entries : List Bytes) : FileSystem where
  nodes := .ofList (([[0x73]], .folder) :: entries.map fun entry => ([[0x73], entry], .file []))
  here := []

def mixedNames : FileSystem := folderOf [[0x2E, 0x62], [0x61, 0x2E, 0xFF], [0xFF, 0x2E, 0x62]]

theorem keys_list_utf8_stems_mixedNames :
    (Path.parse "s").act mixedNames.locate = .ok [[0x73]] ∧
      mixedNames.isFolderAt [[0x73]] = true ∧ mixedNames.listable = true ∧
      (Shelf.folder (Path.parse "s") mixedNames).keys =
        { outcome := .ok [".b", "a"], log := [skipped (Path.parse "s") [0xFF, 0x2E, 0x62]] } ∧
      (Shelf.folder (Path.parse "s") mixedNames).count = .ok (2 + 1) := by
  have hl : (Path.parse "s").act mixedNames.locate = .ok [[0x73]] :=
    toOption_eq_some.mp (by decide +kernel)
  have hfolder : mixedNames.isFolderAt [[0x73]] = true := by decide +kernel
  have hlisted : (mixedNames.entriesAt [[0x73]]).filterMap listedName = [(".b" : Text), "a"] := by
    decide +kernel
  have hskipped : (mixedNames.entriesAt [[0x73]]).filter (listedName · = none) =
      [[0xFF, 0x2E, 0x62]] := by decide +kernel
  obtain ⟨hkeys, hcount, -⟩ := keys_list_utf8_stems _ mixedNames _ hl hfolder rfl
  rw [hlisted, hskipped] at hkeys hcount
  exact ⟨hl, hfolder, rfl, hkeys, hcount⟩

/-- An entry whose name is not UTF-8 is listed all the same, and nothing is warned of. -/
theorem undecodable_suffix_listed :
    let files := folderOf [[0x61, 0x2E, 0xFF]]
    files.entriesAt [[0x73]] = [[0x61, 0x2E, 0xFF]] ∧
      (∀ text, Utf8.decode .strict [0x61, 0x2E, 0xFF] ≠ .ok text) ∧
      (Shelf.folder (Path.parse "s") files).keys = { outcome := .ok ["a"], log := [] } := by
  intro files
  have hentries : files.entriesAt [[0x73]] = [[0x61, 0x2E, 0xFF]] := by decide +kernel
  have hl : (Path.parse "s").act files.locate = .ok [[0x73]] :=
    toOption_eq_some.mp (by decide +kernel)
  have hlisted : listedName [0x61, 0x2E, 0xFF] = some "a" := by decide +kernel
  refine ⟨hentries, ?_, ?_⟩
  · intro text htext
    have hnone : (Utf8.decode .strict [0x61, 0x2E, 0xFF]).toOption = none := by decide +kernel
    rw [toOption_eq_some.mpr htext] at hnone
    cases hnone
  · rw [keys_folder hl (by decide +kernel) rfl, hentries]
    simp [hlisted]

end Shelf

/-! ## Folders of files -/

namespace FileSystem

variable {fs : FileSystem} {l : Location}

structure IsName (name : Bytes) : Prop where
  nonempty : name ≠ []
  not_dot : name ≠ [0x2E]
  not_up : name ≠ up
  no_slash : 0x2F ∉ name
  no_nul : 0 ∉ name
  short : name.length ≤ maxName

instance (name : Bytes) : Decidable (IsName name) :=
  decidable_of_iff (name ≠ [] ∧ name ≠ [0x2E] ∧ name ≠ up ∧ 0x2F ∉ name ∧ 0 ∉ name ∧
      name.length ≤ maxName)
    ⟨fun ⟨h₁, h₂, h₃, h₄, h₅, h₆⟩ => ⟨h₁, h₂, h₃, h₄, h₅, h₆⟩,
      fun ⟨h₁, h₂, h₃, h₄, h₅, h₆⟩ => ⟨h₁, h₂, h₃, h₄, h₅, h₆⟩⟩

theorem mem_entriesAt {name : Bytes} : name ∈ fs.entriesAt l ↔ fs.node? (l ++ [name]) ≠ none := by
  rw [entriesAt, Ascending.mem_sort, ne_eq, node?_eq_none_iff, not_not]

theorem nodup_entriesAt (fs : FileSystem) (l : Location) : (fs.entriesAt l).Nodup := by
  refine (Ascending.sort_perm _ _).nodup_iff.mpr (fs.nodes.nodup.filterMap ?_)
  intro m m' name hm hm'
  rw [nameIn_eq_some.mp hm, nameIn_eq_some.mp hm']

end FileSystem

theorem Text.mem_utf8_of_mem {t : Text} {c : CodePoint} (hc : c.val < 0x80) (h : c ∈ t) :
    c.val.toUInt8 ∈ t.utf8 := by
  refine List.mem_flatMap.mpr ⟨c, h, ?_⟩
  simp [Utf8.encodePoint, hc]

namespace Path

theorem isPlain_of_isName {root : Path} {name : Text} (hscalar : name.isScalar = true)
    (hname : FileSystem.IsName name.utf8)
    (hpath : ((root.child name).text.flatMap CodePoint.fileBytes).length ≤ FileSystem.maxPath) :
    root.IsPlain name where
  nonempty := by
    rintro rfl
    exact hname.nonempty rfl
  not_dot := by
    rintro rfl
    exact hname.not_dot rfl
  not_up := by
    rintro rfl
    exact hname.not_up rfl
  no_slash := fun hmem => hname.no_slash (Text.mem_utf8_of_mem (by decide) hmem)
  no_nul := fun hmem => hname.no_nul (Text.mem_utf8_of_mem (by decide) hmem)
  scalar := hscalar
  short := hname.short
  path_short := hpath

end Path

namespace Shelf

/-- The folder `root` of a tree is at `l` and can be enumerated.  There are only files in it, with
names that files can have, at paths that are short enough. -/
structure HoldsFiles (root : Path) (l : Location) (files : FileSystem) : Prop where
  tree : files.IsTree
  located : root.act files.locate = .ok l
  folder : files.isFolderAt l = true
  listable : files.listable = true
  file : ∀ entry ∈ files.entriesAt l, files.isFolderAt (l ++ [entry]) = false
  name : ∀ entry ∈ files.entriesAt l, FileSystem.IsName entry
  short : ∀ entry ∈ files.entriesAt l,
    ((root.child (Text.ofFileBytes entry)).text.flatMap CodePoint.fileBytes).length ≤
      FileSystem.maxPath

namespace HoldsFiles

variable {root : Path} {l : Location} {files : FileSystem} {name : Text}

theorem get_entry (h : HoldsFiles root l files) (hscalar : name.isScalar = true)
    (hentry : name.utf8 ∈ files.entriesAt l) :
    ∃ bytes, (Shelf.folder root files).get name = .ok bytes := by
  have hshort := h.short _ hentry
  rw [Text.ofFileBytes_utf8 hscalar] at hshort
  have hplain := Path.isPlain_of_isName hscalar (h.name _ hentry) hshort
  have hlocated := hplain.act_locate h.located h.folder
  cases hnode : files.node? (l ++ [name.utf8]) with
  | none => exact absurd hnode (FileSystem.mem_entriesAt.mp hentry)
  | some node =>
    cases node with
    | file bytes => exact ⟨bytes, get_folder_eq_ok.mpr ⟨_, hlocated, hnode⟩⟩
    | folder =>
      have hfile := h.file _ hentry
      rw [FileSystem.isFolderAt_iff.mpr hnode] at hfile
      cases hfile

theorem mem_of_get (h : HoldsFiles root l files) (hscalar : name.isScalar = true)
    (hslash : ('/' : CodePoint) ∉ name) {bytes : Bytes}
    (hget : (Shelf.folder root files).get name = .ok bytes) : name.utf8 ∈ files.entriesAt l := by
  obtain ⟨m, hm, hnode⟩ := get_folder_eq_ok.mp hget
  have hfile : ¬ files.isFolderAt m = true := by
    rw [FileSystem.isFolderAt_iff, hnode]
    simp
  have hrelative : (Path.parse name).anchor = .relative :=
    Path.anchor_parse.mpr fun hhead => hslash (List.mem_of_head? hhead)
  have hwalk := Path.walk_of_relative hrelative h.located hm
  rw [Path.flatMap_names_components, Path.components, splitOn_of_not_mem hslash, List.filter_cons,
    List.filter_nil] at hwalk
  split at hwalk
  · obtain ⟨-, ⟨-, hup⟩ | ⟨-, -, hin⟩⟩ := FileSystem.walk_cons_eq_ok.mp hwalk
    · -- two dots lead to the folder above, which is no file
      cases hup
      exact absurd (h.tree.above l h.folder) hfile
    · cases hin
      rw [← Text.flatMap_fileBytes hscalar]
      exact FileSystem.mem_entriesAt.mpr (by rw [hnode]; simp)
  · -- a name that names nothing leads to the folder itself
    cases hwalk
    exact absurd h.folder hfile

end HoldsFiles

/-! ## Listing and looking up -/

section

variable {root : Path} {l : Location} {files : FileSystem}

theorem cut_of_listedName {entry : Bytes} {name : Text} (h : listedName entry = some name)
    (hcut : entry ≠ name.utf8) :
    ∃ suffix, entry = name.utf8 ++ 0x2E :: suffix ∧ 0x2E ∉ suffix ∧ name ≠ [] ∧ suffix ≠ [] := by
  obtain ⟨hscalar, ⟨suffix, hentry, hsuffix, hstem, hne⟩ | ⟨hwhole, -⟩⟩ := listedName_eq_some.mp h
  · exact ⟨suffix, hentry, hsuffix, mt (Text.utf8_eq_nil hscalar).mpr hstem, hne⟩
  · exact absurd hwhole.symm hcut

theorem eq_of_nodup_filterMap {α β : Type} {f : α → Option β} {found : List α}
    (h : (found.filterMap f).Nodup) {a a' : α} {b : β} (ha : a ∈ found) (ha' : a' ∈ found)
    (hb : f a = some b) (hb' : f a' = some b) : a = a' := by
  by_contra hne
  have hpairs := List.pairwise_filterMap.mp h
  have hsymm : Std.Symm fun x y : α => ∀ b, f x = some b → ∀ b', f y = some b' → b ≠ b' :=
    ⟨fun x y hxy b hb b' hb' => Ne.symm (hxy b' hb' b hb)⟩
  exact hpairs.forall ha ha' hne b hb b hb' rfl

/-- If all that is listed can be looked up and is listed once, no entry is cut. -/
theorem HoldsFiles.uncut_of_loads (h : HoldsFiles root l files)
    (hnodup : ((files.entriesAt l).filterMap listedName).Nodup)
    (hloads : ∀ name ∈ (files.entriesAt l).filterMap listedName,
      ∃ bytes, (Shelf.folder root files).get name = .ok bytes)
    {entry : Bytes} {name : Text} (hentry : entry ∈ files.entriesAt l)
    (hname : listedName entry = some name) : entry = name.utf8 := by
  -- by induction on the length: a cut entry has a shorter one beside it that is not cut and lists
  -- the same name
  induction hlength : entry.length using Nat.strongRecOn generalizing entry name with
  | ind n ih =>
    by_contra hcut
    obtain ⟨suffix, hsplit, -, -, -⟩ := cut_of_listedName hname hcut
    obtain ⟨hscalar, -⟩ := listedName_eq_some.mp hname
    obtain ⟨bytes, hget⟩ := hloads name (List.mem_filterMap.mpr ⟨entry, hentry, hname⟩)
    have hslash : ('/' : CodePoint) ∉ name := by
      intro hmem
      apply (h.name entry hentry).no_slash
      rw [hsplit]
      exact List.mem_append_left _ (Text.mem_utf8_of_mem (by decide) hmem)
    have hshorter : name.utf8 ∈ files.entriesAt l := h.mem_of_get hscalar hslash hget
    have hlisted : listedName name.utf8 = some (Path.stem name) := listedName_utf8 hscalar
    have hless : name.utf8.length < n := by
      rw [← hlength, hsplit, List.length_append, List.length_cons]
      omega
    have hstem : name = Path.stem name :=
      Text.utf8_inj hscalar (Path.isScalar_stem hscalar) (ih _ hless hshorter hlisted rfl)
    rw [← hstem] at hlisted
    exact hcut (eq_of_nodup_filterMap hnodup hentry hshorter hname hlisted)

theorem HoldsFiles.loads_of_uncut (h : HoldsFiles root l files)
    (huncut : ∀ entry ∈ files.entriesAt l, ∀ name, listedName entry = some name →
      entry = name.utf8) :
    ((files.entriesAt l).filterMap listedName).Nodup ∧
      ∀ name ∈ (files.entriesAt l).filterMap listedName,
        ∃ bytes, (Shelf.folder root files).get name = .ok bytes := by
  constructor
  · refine List.pairwise_filterMap.mpr ?_
    refine (FileSystem.nodup_entriesAt files l).imp_of_mem ?_
    rintro entry other hentry hother hne name hname name' hname' rfl
    exact hne ((huncut entry hentry name hname).trans (huncut other hother name hname').symm)
  · intro name hname
    obtain ⟨entry, hentry, hlisted⟩ := List.mem_filterMap.mp hname
    obtain ⟨hscalar, -⟩ := listedName_eq_some.mp hlisted
    exact h.get_entry hscalar (huncut entry hentry name hlisted ▸ hentry)

/-- An entry that is listed at all is listed by its whole name. -/
def Uncut (entry : Bytes) : Prop :=
  (Path.stem (Text.ofFileBytes entry)).isScalar = true →
    Path.stem (Text.ofFileBytes entry) = Text.ofFileBytes entry

theorem uncut_iff {entry : Bytes} :
    Uncut entry ↔ ∀ name, listedName entry = some name → entry = name.utf8 := by
  simp only [listedName_eq_some_iff_stem]
  constructor
  · rintro h name ⟨rfl, hscalar⟩
    exact (Text.ofFileBytes_eq_iff hscalar).mp (h hscalar).symm
  · intro h hscalar
    exact ((Text.ofFileBytes_eq_iff hscalar).mpr (h _ ⟨rfl, hscalar⟩)).symm

theorem uncut_iff_no_suffix {entry : Bytes} :
    Uncut entry ↔ ¬ ∃ (stem : Text) (suffix : Bytes), entry = stem.utf8 ++ 0x2E :: suffix ∧
      stem.isScalar = true ∧ stem ≠ [] ∧ suffix ≠ [] ∧ 0x2E ∉ suffix := by
  rw [uncut_iff]
  constructor
  · rintro h ⟨stem, suffix, hentry, hscalar, hstem, hsuffix, hdot⟩
    have hlisted : listedName entry = some stem :=
      listedName_eq_some.mpr ⟨hscalar,
        .inl ⟨suffix, hentry, hdot, mt (Text.utf8_eq_nil hscalar).mp hstem, hsuffix⟩⟩
    have hlength := congrArg List.length (hentry.symm.trans (h stem hlisted))
    rw [List.length_append, List.length_cons] at hlength
    omega
  · intro h name hname
    by_contra hcut
    obtain ⟨suffix, hentry, hdot, hstem, hsuffix⟩ := cut_of_listedName hname hcut
    obtain ⟨hscalar, -⟩ := listedName_eq_some.mp hname
    exact h ⟨name, suffix, hentry, hscalar, hstem, hsuffix, hdot⟩

end

end Shelf

namespace Store

/-- In a folder of files, listing and looking up agree exactly when no listed entry is cut. -/
theorem listing_loads_iff_uncut (store : Store) (root : Path) (files : FileSystem) (l : Location)
    (hshelf : store.shelf = .folder root files) (h : Shelf.HoldsFiles root l files) :
    ∃ names, store.list.outcome = .ok names ∧
      ((names.Nodup ∧ ∀ name ∈ names, ∃ bytes, store.shelf.get name = .ok bytes) ↔
        ∀ entry ∈ files.entriesAt l, (Path.stem (Text.ofFileBytes entry)).isScalar = true →
          Path.stem (Text.ofFileBytes entry) = Text.ofFileBytes entry) ∧
      ((names.Nodup ∧ ∀ name ∈ names, ∃ bytes, store.shelf.get name = .ok bytes) ↔
        ∀ entry ∈ files.entriesAt l, ¬ ∃ (stem : Text) (suffix : Bytes),
          entry = stem.utf8 ++ 0x2E :: suffix ∧ stem.isScalar = true ∧ stem ≠ [] ∧ suffix ≠ [] ∧
            0x2E ∉ suffix) := by
  have hkeys := Shelf.keys_folder h.located h.folder h.listable
  have hagree : ((((files.entriesAt l).filterMap Shelf.listedName).Nodup ∧
      ∀ name ∈ (files.entriesAt l).filterMap Shelf.listedName,
        ∃ bytes, (Shelf.folder root files).get name = .ok bytes) ↔
      ∀ entry ∈ files.entriesAt l, Shelf.Uncut entry) := by
    simp only [Shelf.uncut_iff]
    constructor
    · rintro ⟨hnodup, hloads⟩ entry hentry name hname
      exact h.uncut_of_loads hnodup hloads hentry hname
    · exact h.loads_of_uncut
  refine ⟨(files.entriesAt l).filterMap Shelf.listedName, ?_, ?_, ?_⟩
  · rw [list, hshelf, hkeys]
  · rw [hshelf]
    exact hagree
  · rw [hshelf, hagree]
    simp only [Shelf.uncut_iff_no_suffix]

def uncutNames : FileSystem :=
  Shelf.folderOf [[0x61], [0x2E, 0x62], [0x63, 0x2E], [0xFF, 0x2E, 0x78]]

theorem listing_loads_iff_uncut_uncutNames :
    Shelf.HoldsFiles (Path.parse "s") [[0x73]] uncutNames ∧
      ∃ names, (Store.mk (.folder (Path.parse "s") uncutNames) 1 false).list.outcome = .ok names ∧
        names.Nodup ∧ ∀ name ∈ names,
          ∃ bytes, (Shelf.folder (Path.parse "s") uncutNames).get name = .ok bytes := by
  have h : Shelf.HoldsFiles (Path.parse "s") [[0x73]] uncutNames :=
    { tree := by decide +kernel
      located := toOption_eq_some.mp (by decide +kernel)
      folder := by decide +kernel
      listable := rfl
      file := by decide +kernel
      name := by decide +kernel
      short := by decide +kernel }
  obtain ⟨names, hnames, hiff, -⟩ :=
    listing_loads_iff_uncut ⟨.folder (Path.parse "s") uncutNames, 1, false⟩ _ _ _ rfl h
  exact ⟨h, names, hnames, hiff.mpr (by decide +kernel)⟩

end Store

end ScriptDepot
