import ScriptDepot.Proofs.Backends
import ScriptDepot.Proofs.FolderContract
import ScriptDepot.Proofs.Utf8.FileNames
/-!
# What a put leaves alone

Two relative keys lead to the same file exactly when they have the same components.  What is put
under one key is found under every key with its components.  A key that goes on where the first one
ends leads nowhere, before as after, since there is a file in its way or nothing at all.  Under any
other key all is as it was.
-/

namespace ScriptDepot

namespace FileSystem

variable {fs : FileSystem}

/-! ## Walks -/

theorem walk_append_of_folder {l m : Location} {names : List Bytes} (others : List Bytes)
    (hwalk : fs.walk l names = .ok m) (hfolder : fs.isFolderAt m = true) :
    fs.walk l (names ++ others) = fs.walk m others := by
  induction names generalizing l with
  | nil =>
    cases hwalk
    rfl
  | cons name rest ih =>
    obtain ⟨hl, ⟨hup, hrest⟩ | ⟨hup, hshort, hrest⟩⟩ := walk_cons_eq_ok.mp hwalk
    · unfold up at hup
      rw [List.cons_append, walk, if_neg (by simp [hl]), if_pos hup]
      exact ih hrest
    · unfold up at hup
      -- a walk goes on only from a folder, and the last place is one by assumption
      have hthere : fs.isFolderAt (l ++ [name]) = true := by
        cases rest with
        | nil =>
          cases hrest
          exact hfolder
        | cons next later => exact (walk_cons_eq_ok.mp hrest).1
      have hnode : fs.node? (l ++ [name]) ≠ none := by
        rw [isFolderAt_iff.mp hthere]
        simp
      rw [List.cons_append, walk, if_neg (by simp [hl]), if_neg hup, if_neg (by omega),
        if_neg hnode, ih hrest]
      split
      · rename_i hnil
        obtain ⟨rfl, rfl⟩ := List.append_eq_nil_iff.mp hnil
        cases hrest
        rfl
      · rfl

theorem walk_down {l m : Location} {names : List Bytes} (hup : up ∉ names)
    (hwalk : fs.walk l names = .ok m) : m = l ++ names := by
  induction names generalizing l with
  | nil =>
    cases hwalk
    rw [List.append_nil]
  | cons name rest ih =>
    rw [List.mem_cons, not_or] at hup
    obtain ⟨-, ⟨hname, -⟩ | ⟨-, -, hrest⟩⟩ := walk_cons_eq_ok.mp hwalk
    · exact absurd hname.symm hup.1
    · rw [ih hup.2 hrest, List.append_assoc, List.singleton_append]

/-- A walk that does not come by a file does not notice that it was written. -/
theorem walk_set_file_beside {l t : Location} {names : List Bytes} (content : Bytes)
    (ht : fs.isFolderAt t = false) (hup : up ∉ names) (haway : ¬ t <+: l ++ names) :
    (fs.set t (.file content)).walk l names = fs.walk l names := by
  induction names generalizing l with
  | nil => rfl
  | cons name rest ih =>
    rw [List.mem_cons, not_or] at hup
    have hsplit : l ++ name :: rest = l ++ [name] ++ rest := List.append_cons l name rest
    have hne : l ++ [name] ≠ t := by
      rintro rfl
      exact haway (hsplit ▸ List.prefix_append _ _)
    have hname : ¬ name = [0x2E, 0x2E] := Ne.symm hup.1
    simp only [walk, isFolderAt_set_file content ht, node?_set_of_ne _ hne, if_neg hname,
      ih hup.2 (hsplit ▸ haway)]

theorem locate_congr {fs' : FileSystem} {path : Bytes}
    (h : path ≠ [] → path.length ≤ maxPath → fs'.locate path = fs.locate path) :
    fs'.locate path = fs.locate path := by
  by_cases hlong : maxPath < path.length
  · simp only [locate, if_pos hlong]
  · by_cases hempty : path = []
    · simp only [locate, if_neg hlong, if_pos hempty]
    · exact h hempty (by omega)

theorem readFile_congr {fs' : FileSystem} {path : Bytes}
    (hlocate : fs'.locate path = fs.locate path)
    (hnode : ∀ m, fs.locate path = .ok m → fs'.node? m = fs.node? m) :
    fs'.readFile path = fs.readFile path := by
  unfold readFile find
  rw [hlocate]
  cases hm : fs.locate path with
  | error e => rfl
  | ok m =>
    have hm' := hnode m hm
    simp only [bind, Except.bind, hm']

end FileSystem

namespace Path

variable {root : Path} {key other : Text} {fs : FileSystem} {t : Location}

/-! ## Routes -/

/-- The names by which the system follows a relative key. -/
def route (key : Text) : List Bytes := (components key).map (List.flatMap CodePoint.fileBytes)

theorem isScalar_of_mem_components {part : Text} (hkey : key.isScalar = true)
    (hpart : part ∈ components key) : part.isScalar = true := by
  rw [Text.isScalar, List.all_eq_true] at hkey ⊢
  intro c hc
  have hslash : c ≠ ('/' : CodePoint) := by
    rintro rfl
    exact (mem_components hpart).1 hc
  exact hkey c ((mem_splitOn hslash key).mp ⟨part, (List.mem_filter.mp hpart).1, hc⟩)

theorem map_ofFileBytes_route (hkey : key.isScalar = true) :
    (route key).map Text.ofFileBytes = components key := by
  rw [route, List.map_map]
  refine (List.map_congr_left ?_).trans (List.map_id _)
  intro part hpart
  have hscalar := isScalar_of_mem_components hkey hpart
  rw [Function.comp_apply, Text.flatMap_fileBytes hscalar, Text.ofFileBytes_utf8 hscalar]
  rfl

theorem route_prefix_iff (hkey : key.isScalar = true) (hother : other.isScalar = true) :
    route key <+: route other ↔ components key <+: components other := by
  constructor
  · intro h
    rw [← map_ofFileBytes_route hkey, ← map_ofFileBytes_route hother]
    exact h.map _
  · exact fun h => h.map _

theorem up_not_mem_route (hkey : strays key = false) : FileSystem.up ∉ route key := by
  rw [strays, decide_eq_false_iff_not, not_or] at hkey
  intro hup
  obtain ⟨part, hpart, hbytes⟩ := List.mem_map.mp hup
  have heq : part = (".." : Text) := Text.eq_of_flatMap_fileBytes_eq (by decide) hbytes
  exact hkey.2 (heq ▸ hpart)

theorem append_of_not_strays (hkey : strays key = false) :
    root.append key = ⟨root.anchor, root.parts ++ components key⟩ := by
  rw [strays, decide_eq_false_iff_not, not_or, Decidable.not_not] at hkey
  exact if_pos hkey.1

theorem steps_append_key (hkey : strays key = false) :
    (root.append key).steps = root.steps ++ route key := by
  rw [append_of_not_strays hkey, steps_append, flatMap_names_components]
  rfl

theorem text_child_of_text_eq_nil (hroot : root.text = []) (part : Text) :
    (root.child part).text = "/" ++ part := by
  rcases text_child root part with ⟨rfl, -⟩ | ⟨hnil, hanchor, -⟩ | ⟨-, htext⟩
  · cases hroot
  · obtain ⟨anchor, parts⟩ := root
    cases hnil
    cases anchor with
    | relative => exact absurd rfl hanchor
    | root => cases hroot
    | doubleRoot => cases hroot
  · rw [htext, hroot, List.nil_append]

theorem head?_text_append_key (hkey : strays key = false) (hne : (root.append key).text ≠ []) :
    (root.append key).text.head? = some ('/' : CodePoint) ↔
      root.text = [] ∨ root.text.head? = some ('/' : CodePoint) := by
  rw [append_of_not_strays hkey] at hne ⊢
  have hparts : ∀ part ∈ components key, ('/' : CodePoint) ∉ part ∧ part ≠ [] :=
    fun part hpart => mem_components hpart
  by_cases hroot : root.text = []
  · simp only [hroot, true_or, iff_true]
    cases hkeys : components key with
    | nil =>
      rw [hkeys, List.append_nil] at hne
      exact absurd hroot hne
    | cons part rest =>
      rw [hkeys, List.forall_mem_cons] at hparts
      have hchild := text_child_of_text_eq_nil hroot part
      have hsome : (root.child part).text ≠ [] := hchild ▸ List.cons_ne_nil _ _
      have hhead := (head?_text_append hsome hparts.2).2
      rw [List.append_assoc] at hhead
      apply hhead.mpr
      show (root.child part).text.head? = _
      rw [hchild]
      rfl
  · rw [(head?_text_append hroot hparts).2]
    simp [hroot]

theorem origin_append_key {path path' : Bytes} (hkey : strays key = false)
    (hother : strays other = false) (hpath : (root.append key).bytes = .ok path)
    (hpath' : (root.append other).bytes = .ok path') (hne : path ≠ []) (hne' : path' ≠ []) :
    fs.origin path' = fs.origin path := by
  simp only [FileSystem.origin, head?_of_bytes hpath, head?_of_bytes hpath',
    head?_text_append_key hkey (text_ne_nil_of_bytes hpath hne),
    head?_text_append_key hother (text_ne_nil_of_bytes hpath' hne')]

/-! ## Keys beside a file -/

/-- A key that leads somewhere has all its folders, so the other keys can be followed from there. -/
theorem exists_folder_of_locate (hkey : strays key = false) (hroute : route key ≠ [])
    (ht : (root.append key).act fs.locate = .ok t) :
    ∃ l, t = l ++ route key ∧
      ∀ other path, strays other = false → (root.append other).bytes = .ok path → path ≠ [] →
        path.length ≤ FileSystem.maxPath → fs.locate path = fs.walk l (route other) := by
  obtain ⟨path, hpath, ht⟩ := act_eq_ok.mp ht
  obtain ⟨-, hne, hwalk⟩ := FileSystem.locate_eq_ok.mp ht
  rw [names_of_bytes hpath, steps_append_key hkey] at hwalk
  obtain ⟨l, hl, hdown⟩ := FileSystem.walk_append_eq_ok.mp hwalk
  have hfolder : fs.isFolderAt l = true := by
    cases hnames : route key with
    | nil => exact absurd hnames hroute
    | cons name rest =>
      rw [hnames] at hdown
      exact (FileSystem.walk_cons_eq_ok.mp hdown).1
  refine ⟨l, FileSystem.walk_down (up_not_mem_route hkey) hdown, ?_⟩
  intro other path' hother hpath' hne' hshort
  calc fs.locate path' = fs.walk (fs.origin path') (FileSystem.names path') := by
        rw [FileSystem.locate, if_neg (by omega), if_neg hne', FileSystem.origin]
    _ = fs.walk (fs.origin path) (root.steps ++ route other) := by
        rw [origin_append_key hkey hother hpath hpath' hne hne', names_of_bytes hpath',
          steps_append_key hother]
    _ = fs.walk l (route other) := FileSystem.walk_append_of_folder _ hl hfolder

theorem act_locate_below (hkey : strays key = false) (hother : strays other = false)
    (ht : (root.append key).act fs.locate = .ok t) (hfile : fs.isFolderAt t = false)
    (hbelow : route key <+: route other) (hne : route key ≠ route other) (m : Location) :
    (root.append other).act fs.locate ≠ .ok m := by
  intro hm
  obtain ⟨path, hpath, ht⟩ := act_eq_ok.mp ht
  obtain ⟨path', hpath', hm⟩ := act_eq_ok.mp hm
  obtain ⟨-, hsome, hwalk⟩ := FileSystem.locate_eq_ok.mp ht
  obtain ⟨-, hsome', hwalk'⟩ := FileSystem.locate_eq_ok.mp hm
  obtain ⟨rest, hrest⟩ := hbelow
  rw [names_of_bytes hpath, steps_append_key hkey] at hwalk
  rw [origin_append_key hkey hother hpath hpath' hsome hsome', names_of_bytes hpath',
    steps_append_key hother, ← hrest, ← List.append_assoc] at hwalk'
  obtain ⟨t', ht', hbeyond⟩ := FileSystem.walk_append_eq_ok.mp hwalk'
  cases ht'.symm.trans hwalk
  cases rest with
  | nil => exact hne (by rw [← hrest, List.append_nil])
  | cons name others =>
    have hfolder := (FileSystem.walk_cons_eq_ok.mp hbeyond).1
    rw [hfile] at hfolder
    cases hfolder

theorem act_congr {α : Type} {p : Path} {f g : Bytes → Except OsError α}
    (h : ∀ path, p.bytes = .ok path → f path = g path) : p.act f = p.act g := by
  unfold act
  cases hbytes : p.bytes with
  | error b => rfl
  | ok path => simp only [bind, Except.bind, h path hbytes]

theorem act_readFile_set_file (content : Bytes) (hkey : strays key = false)
    (hother : strays other = false) (ht : (root.append key).act fs.locate = .ok t)
    (hfile : fs.isFolderAt t = false) (haway : ¬ route key <+: route other) :
    (root.append other).act (fs.set t (.file content)).readFile =
      (root.append other).act fs.readFile := by
  have hroute : route key ≠ [] := fun hnil => haway (hnil ▸ List.nil_prefix)
  obtain ⟨l, rfl, hlocate⟩ := exists_folder_of_locate hkey hroute ht
  obtain ⟨l', hl', hlocate'⟩ :=
    exists_folder_of_locate hkey hroute ((act_locate_set_file content hfile).mpr ht)
  cases List.append_cancel_right hl'
  have hbeside : ¬ l ++ route key <+: l ++ route other :=
    mt (List.prefix_append_right_inj l).mp haway
  have hup := up_not_mem_route hother
  apply act_congr
  intro path hpath
  apply FileSystem.readFile_congr
  · apply FileSystem.locate_congr
    intro hne hshort
    rw [hlocate' other path hother hpath hne hshort, hlocate other path hother hpath hne hshort,
      FileSystem.walk_set_file_beside content hfile hup hbeside]
  · intro m hm
    obtain ⟨hshort, hne, -⟩ := FileSystem.locate_eq_ok.mp hm
    rw [hlocate other path hother hpath hne hshort] at hm
    apply FileSystem.node?_set_of_ne
    intro heq
    rw [FileSystem.walk_down hup hm] at heq
    exact hbeside (heq ▸ List.prefix_rfl)

end Path

namespace Shelf

/-! ## The frame of a put -/

theorem get_below {root : Path} {files : FileSystem} {key other : Text} {t : Location}
    (hkey : Path.strays key = false) (hother : Path.strays other = false)
    (ht : (root.append key).act files.locate = .ok t) (hfile : files.isFolderAt t = false)
    (hbelow : Path.route key <+: Path.route other) (hne : Path.route key ≠ Path.route other) :
    ∃ e, (Shelf.folder root files).get other = .error e := by
  cases hget : (Shelf.folder root files).get other with
  | error e => exact ⟨e, rfl⟩
  | ok bytes =>
    obtain ⟨m, hm, -⟩ := get_folder_eq_ok.mp hget
    exact absurd hm (Path.act_locate_below hkey hother ht hfile hbelow hne m)

/-- What was put under a key is found under every key with the same components.  Under a key that
goes on from there nothing is found, before or after.  Under any other key the outcome is what it
was.  One file is all that changed: no other node did, and no folder was made. -/
theorem put_changes_one_file (root : Path) (files : FileSystem) (key other : Text) (bytes : Bytes)
    (after : Shelf) (hkey : Path.strays key = false) (hother : Path.strays other = false)
    (hscalar : key.isScalar = true) (hscalar' : other.isScalar = true)
    (hput : (Shelf.folder root files).put key bytes = .ok after) :
    let before := Shelf.folder root files
    (Path.components other = Path.components key → after.get other = .ok bytes) ∧
      (Path.components key <+: Path.components other →
        Path.components key ≠ Path.components other →
          (∃ e, before.get other = .error e) ∧ ∃ e, after.get other = .error e) ∧
      (¬ Path.components key <+: Path.components other → after.get other = before.get other) ∧
      ∃ t changed, after = .folder root changed ∧ (root.append key).act files.locate = .ok t ∧
        changed.node? t = some (.file bytes) ∧ (∀ m, m ≠ t → changed.node? m = files.node? m) ∧
          ∀ m, changed.isFolderAt m = files.isFolderAt m := by
  intro before
  obtain ⟨t, ht, hfile, rfl⟩ := put_folder_eq_ok.mp hput
  have ht' := (Path.act_locate_set_file bytes hfile).mpr ht
  have hfolders := FileSystem.isFolderAt_set_file bytes hfile
  have hnode : (files.set t (.file bytes)).node? t = some (.file bytes) := by
    apply FileSystem.node?_set_self
    rintro rfl
    simp at hfile
  refine ⟨?_, ?_, ?_, t, _, rfl, ht, hnode, fun m hm => FileSystem.node?_set_of_ne _ hm, hfolders⟩
  · intro hsame
    have hpath : root.append other = root.append key := by
      rw [Path.append_of_not_strays hkey, Path.append_of_not_strays hother, hsame]
    exact get_folder_eq_ok.mpr ⟨t, hpath ▸ ht', hnode⟩
  · -- A key below the one that was put leads through a file, before and after.
    intro hbelow hne
    have hroute := (Path.route_prefix_iff hscalar hscalar').mpr hbelow
    have hroutes : Path.route key ≠ Path.route other := by
      intro heq
      apply hne
      rw [← Path.map_ofFileBytes_route hscalar, heq, Path.map_ofFileBytes_route hscalar']
    exact ⟨get_below hkey hother ht hfile hroute hroutes,
      get_below hkey hother ht' ((hfolders t).trans hfile) hroute hroutes⟩
  · intro haway
    have hroute := mt (Path.route_prefix_iff hscalar hscalar').mp haway
    have hread := Path.act_readFile_set_file bytes hkey hother ht hfile hroute
    show (Shelf.folder root _).get other = (Shelf.folder root files).get other
    simp only [get, hread]

def nestedFolder : FileSystem where
  nodes := ⟨[([("s" : Text).utf8], .folder), ([("s" : Text).utf8, ("d" : Text).utf8], .folder),
    ([("s" : Text).utf8, ("d" : Text).utf8, ("b" : Text).utf8], .file ("1" : Text).utf8)],
    by decide⟩
  here := []

theorem put_changes_one_file_nestedFolder :
    ∃ after, (Shelf.folder (Path.parse "s") nestedFolder).put "./d//a" [0x32] = .ok after ∧
      after.get "d/a/" = .ok [0x32] ∧
      (∃ e, (Shelf.folder (Path.parse "s") nestedFolder).get "d/a/x" = .error e) ∧
      (∃ e, after.get "d/a/x" = .error e) ∧
      after.get "d/b" = (Shelf.folder (Path.parse "s") nestedFolder).get "d/b" := by
  have ht : ((Path.parse "s").append "./d//a").act nestedFolder.locate =
      .ok [("s" : Text).utf8, ("d" : Text).utf8, ("a" : Text).utf8] :=
    toOption_eq_some.mp (by decide +kernel)
  have hput : (Shelf.folder (Path.parse "s") nestedFolder).put "./d//a" [0x32] = .ok _ :=
    put_folder_eq_ok.mpr ⟨_, ht, by decide +kernel, rfl⟩
  have hlaw := fun other hother hscalar =>
    put_changes_one_file (Path.parse "s") nestedFolder "./d//a" other [0x32] _ (by decide +kernel)
      hother (by decide +kernel) hscalar hput
  obtain ⟨hsame, -⟩ := hlaw "d/a/" (by decide +kernel) (by decide +kernel)
  obtain ⟨-, hbelow, -⟩ := hlaw "d/a/x" (by decide +kernel) (by decide +kernel)
  obtain ⟨-, -, hbeside, -⟩ := hlaw "d/b" (by decide +kernel) (by decide +kernel)
  obtain ⟨hbefore, hafter⟩ := hbelow (by decide +kernel) (by decide +kernel)
  exact ⟨_, hput, hsame (by decide +kernel), hbefore, hafter, hbeside (by decide +kernel)⟩

end Shelf

end ScriptDepot
