import ScriptDepot.Proofs.Console.Files
/-!
# How a run ends

A run that understands its command line ends with exit code 0, or with exit code 1 after an error
line, or breaks down.  It breaks down on the texts that no setting, path, file or terminal can take,
and on nothing else: `OpeningBreaks` and `RequestBreaks` name them one by one.
-/

namespace ScriptDepot

/-! ## Settings -/

theorem Settings.check_breaks {settings : Settings} {b : Breakdown} :
    settings.check = .error (.breakdown b) ↔
      (settings.maxScripts = .nothing ∧ b = .withheld .maxScripts) ∨
      ∃ n, settings.maxScripts = .value n ∧ 0 ≤ n ∧ settings.port = .nothing ∧
        b = .withheld .port := by
  unfold check
  cases settings.maxScripts with
  | nothing => simp [eq_comm]
  | value n =>
    by_cases hn : n < 0
    · have hneg : ¬0 ≤ n := Int.not_le.mpr hn
      simp [hn, hneg]
    · cases settings.port with
      | nothing => simp [hn, eq_comm, Int.not_lt.mp hn]
      | value port =>
        simp only [hn, if_false]
        split <;> simp

theorem Environment.integer_cases (env : Environment) (name : Text) (default : Int) :
    (∃ n, env.integer name (.value default) = .ok (.value n)) ∨
      ∃ r, env.integer name (.value default) = .error (.refusal r) := by
  unfold integer
  split
  · exact .inl ⟨_, rfl⟩
  · split
    · exact .inl ⟨_, rfl⟩
    · exact .inr ⟨_, rfl⟩

theorem Config.ofEnvironment_ne_breakdown (env : Environment) (b : Breakdown) :
    ofEnvironment env ≠ .error (.breakdown b) := by
  unfold ofEnvironment
  rcases env.integer_cases "SCRIPT_SERVER_MAX_SCRIPTS" 500 with ⟨max, hmax⟩ | ⟨r, hmax⟩
  · rcases env.integer_cases "SCRIPT_SERVER_PORT" 8765 with ⟨port, hport⟩ | ⟨r, hport⟩
    · simp [hmax, hport, bind, Except.bind, Settings.check_breaks]
    · simp [hmax, hport, bind, Except.bind]
  · simp [hmax, bind, Except.bind]

theorem Config.resolve_breaks {env : Environment} {o : Overrides} {b : Breakdown} :
    resolve env o = .error (.breakdown b) ↔ ∃ config, ofEnvironment env = .ok config ∧
      ((o.maxScripts = some .nothing ∧ b = .withheld .maxScripts) ∨
        ∃ n, o.maxScripts.getD (.value config.maxScripts) = .value n ∧ 0 ≤ n ∧
          o.port = some .nothing ∧ b = .withheld .port) := by
  have hresolve : resolve env o = .error (.breakdown b) ↔ ∃ config,
      ofEnvironment env = .ok config ∧
        (o.apply config.settings).check = .error (.breakdown b) := by
    refine bind_eq_error.trans ?_
    simp [ofEnvironment_ne_breakdown]
  rw [hresolve]
  refine exists_congr fun config => and_congr_right fun _ => ?_
  have hwithheld : ∀ (value : Option (Given Int)) (n : Int),
      value.getD (.value n) = .nothing ↔ value = some .nothing := by
    intro value n
    cases value <;> simp
  simp [Settings.check_breaks, Overrides.apply, settings, hwithheld]

namespace Console

variable {s : Surroundings} {options : CommandLine.Options} {config : Config} {store : Store}
  {request : CommandLine.Request} {b : Breakdown}

theorem report_of_bytes {p : Path} (h : p.bytes = .error b) : report (.breakdown b) = none :=
  Path.bytes_unreported h

/-! ## Opening the store -/

/-- All that keeps a store from being opened and is not reported: a setting that is withheld, or a
home folder that is not known. -/
inductive OpeningBreaks (s : Surroundings) (options : CommandLine.Options) : Breakdown → Prop
  | maxScripts {config : Config} (henv : Config.ofEnvironment s.env = .ok config)
      (hmax : options.overrides.maxScripts = some .nothing) :
      OpeningBreaks s options (.withheld .maxScripts)
  | port {config : Config} {n : Int} (henv : Config.ofEnvironment s.env = .ok config)
      (hmax : options.overrides.maxScripts.getD (.value config.maxScripts) = .value n)
      (hn : 0 ≤ n) (hport : options.overrides.port = some .nothing) :
      OpeningBreaks s options (.withheld .port)
  | folder {config : Config} (hconfig : Config.resolve s.env options.overrides = .ok config)
      (hfolder : config.scriptsDir = .nothing) : OpeningBreaks s options (.withheld .path)
  | home {config : Config} {folder : Text} {b : Breakdown}
      (hconfig : Config.resolve s.env options.overrides = .ok config)
      (hfolder : config.scriptsDir = .value folder)
      (hhome : (Path.parse folder).expandHome s.homes = .error b) : OpeningBreaks s options b

theorem failsToOpen_breakdown :
    FailsToOpen s options (.breakdown b) ↔ OpeningBreaks s options b := by
  constructor
  · intro h
    cases h with
    | unresolved h =>
      obtain ⟨config, henv, ⟨hmax, rfl⟩ | ⟨n, hmax, hn, hport, rfl⟩⟩ := Config.resolve_breaks.mp h
      · exact .maxScripts henv hmax
      · exact .port henv hmax hn hport
    | unopened hconfig h =>
      rcases Config.openStore_eq_error.mp h with ⟨hfolder, he⟩ | ⟨folder, b', hfolder, hhome, he⟩
      · cases he
        exact .folder hconfig hfolder
      · cases he
        exact .home hconfig hfolder hhome
  · intro h
    cases h with
    | maxScripts henv hmax =>
      exact .unresolved (Config.resolve_breaks.mpr ⟨_, henv, .inl ⟨hmax, rfl⟩⟩)
    | port henv hmax hn hport =>
      exact .unresolved (Config.resolve_breaks.mpr ⟨_, henv, .inr ⟨_, hmax, hn, hport, rfl⟩⟩)
    | folder hconfig hfolder =>
      exact .unopened hconfig (Config.openStore_eq_error.mpr (.inl ⟨hfolder, rfl⟩))
    | home hconfig hfolder hhome =>
      exact .unopened hconfig (Config.openStore_eq_error.mpr (.inr ⟨_, _, hfolder, hhome, rfl⟩))

theorem OpeningBreaks.report_eq_none (h : OpeningBreaks s options b) :
    report (.breakdown b) = none := by
  cases h with
  | home _ _ hhome => exact Path.expandHome_unreported hhome
  | _ => rfl

theorem not_opens_of_failsToOpen {e : Failure} (h : FailsToOpen s options e) :
    ¬Opens s options config store := by
  rintro ⟨hresolved, hopened⟩
  cases h with
  | unresolved h => cases hresolved.symm.trans h
  | unopened hconfig h =>
    cases hresolved.symm.trans hconfig
    cases hopened.symm.trans h

/-! ## Carrying out a request -/

theorem outcome_after {α : Type} (work : Act α) (files : FileSystem) (next : α → Progress) :
    (after work files next).outcome = work.outcome >>= fun a => (next a).outcome := by
  unfold after
  cases work.outcome <;> rfl

theorem outcome_print_of_scalar {lines : List Text} (h : ∀ line ∈ lines, line.isScalar = true)
    (p : Progress) : (print lines p).outcome = p.outcome := by
  rw [print_of_scalar h]

theorem isScalar_of_list {names : List Text} {root : Path} {files : FileSystem}
    (hshelf : store.shelf = .folder root files) (h : store.list.outcome = .ok names) :
    ∀ name ∈ names, name.isScalar = true := by
  rw [Store.list, hshelf, Shelf.keys] at h
  split at h
  · cases h
  · cases h
  · split at h
    · cases h
    · cases h
      intro name hname
      obtain ⟨entry, -, hentry⟩ := List.mem_filterMap.mp hname
      unfold Shelf.listedName at hentry
      dsimp only at hentry
      split at hentry <;> cases hentry
      assumption

theorem outcome_list {root : Path} {files : FileSystem}
    (hshelf : store.shelf = .folder root files) :
    (list store s.files).outcome = store.list.outcome.map fun _ => () := by
  rw [list, outcome_after]
  cases hnames : store.list.outcome with
  | error e => rfl
  | ok names =>
    -- Every line can be printed: a name is listed only if it is text, and the rest is ASCII.
    refine outcome_print_of_scalar ?_ _
    have hscalar := isScalar_of_list hshelf hnames
    have hnone : Text.isScalar "0 scripts stored." = true := by decide
    have hslash : Text.isScalar "/" = true := by decide
    have hstored : Text.isScalar " scripts stored." = true := by decide
    intro line hline
    split at hline
    · rw [List.mem_singleton.mp hline, hnone]
    · rcases List.mem_append.mp hline with hline | hline
      · exact hscalar line ((Ascending.mem_sort _).mp hline)
      · rw [List.mem_singleton.mp hline]
        simp [Text.isScalar_ofNat, Text.isScalar_ofInt, hslash, hstored]

theorem isScalar_of_load {name text : Text} (h : store.load name = .ok text) :
    text.isScalar = true := by
  unfold Store.load at h
  split at h
  · cases h
  · split at h
    · cases h
      exact Utf8.isScalar_of_decode (by assumption)
    · cases h

theorem outcome_get (store : Store) (files : FileSystem) (name : Text) :
    (get store files name).outcome = (store.load name).map fun _ => () := by
  rw [get, outcome_after, Act.outcome_ofExcept]
  cases hload : store.load name with
  | error e => rfl
  | ok text =>
    refine outcome_print_of_scalar ?_ _
    intro line hline
    rw [List.mem_singleton.mp hline]
    exact isScalar_of_load hload

def contents (s : Surroundings) (file : Text) : Except Breakdown Bytes :=
  if file = [CommandLine.dash] then .ok s.stdin else (Path.parse file).act s.files.readFile

theorem source_value (s : Surroundings) (file : Text) :
    source s (.value file) =
      match contents s file with
      | .error b => .error b
      | .ok bytes =>
        match Utf8.decode .strict bytes with
        | .ok text => .ok text.normalizeNewlines
        | .error fault => .error (Breakdown.undecodable fault) :=
  rfl

theorem contents_breaks {file : Text} :
    contents s file = .error b ∧ report (.breakdown b) = none ↔
      file ≠ [CommandLine.dash] ∧ (Path.parse file).bytes = .error b := by
  unfold contents
  by_cases hfile : file = [CommandLine.dash]
  · simp [hfile]
  · rw [if_neg hfile]
    rcases (Path.parse file).act_cases s.files.readFile with
      ⟨path, hpath, ⟨bytes, -, hact⟩ | ⟨e, -, hact⟩⟩ | ⟨b', hb, hact, -⟩
    · simp [hact, hpath]
    · -- A fault of the system is reported.
      simp only [hact, hpath, reduceCtorEq, and_false, iff_false, not_and]
      rintro ⟨rfl⟩
      simp [report, Breakdown.reported?]
    · simp only [hact, hb, hfile, ne_eq, not_false_iff, true_and, Except.error.injEq]
      constructor
      · exact And.left
      · rintro rfl
        exact ⟨rfl, report_of_bytes hb⟩

inductive SourceBreaks (s : Surroundings) : Given Text → Breakdown → Prop
  | withheld : SourceBreaks s .nothing (.withheld .path)
  | path {file : Text} {b : Breakdown} (hfile : file ≠ [CommandLine.dash])
      (hpath : (Path.parse file).bytes = .error b) : SourceBreaks s (.value file) b
  | text {file : Text} {bytes : Bytes} {fault : DecodeFault}
      (hbytes : contents s file = .ok bytes) (hfault : Utf8.decode .strict bytes = .error fault) :
      SourceBreaks s (.value file) (.undecodable fault)

theorem source_breaks {file : Given Text} :
    source s file = .error (.breakdown b) ∧ report (.breakdown b) = none ↔
      SourceBreaks s file b := by
  constructor
  · rintro ⟨h, hreport⟩
    cases file with
    | nothing =>
      cases h
      exact .withheld
    | value file =>
      cases hbytes : contents s file with
      | error b' =>
        rw [source_value, hbytes] at h
        cases h
        obtain ⟨hfile, hpath⟩ := contents_breaks.mp ⟨hbytes, hreport⟩
        exact .path hfile hpath
      | ok bytes =>
        rw [source_value, hbytes] at h
        dsimp only at h
        split at h
        · cases h
        · cases h
          exact .text hbytes (by assumption)
  · intro h
    cases h with
    | withheld => exact ⟨rfl, rfl⟩
    | path hfile hpath =>
      obtain ⟨hbytes, hreport⟩ := contents_breaks (s := s).mpr ⟨hfile, hpath⟩
      rw [source_value, hbytes]
      exact ⟨rfl, hreport⟩
    | text hbytes hfault =>
      exact ⟨by simp [source_value, hbytes, hfault], rfl⟩

theorem isScalar_of_source {file : Given Text} {text : Text} (h : source s file = .ok text) :
    text.isScalar = true := by
  cases file with
  | nothing => cases h
  | value file =>
    rw [source_value] at h
    split at h
    · cases h
    · split at h
      · cases h
        exact Text.isScalar_normalizeNewlines (Utf8.isScalar_of_decode (by assumption))
      · cases h

/-- All that a request on an open store breaks down on.  Listing does not, and the endpoint does
only where it cannot be bound for a reason that is not the system's. -/
inductive RequestBreaks (s : Surroundings) (config : Config) (store : Store) :
    CommandLine.Request → Breakdown → Prop
  | reading {root : Path} {name : Text} {b : Breakdown}
      (hshelf : store.shelf = .folder root s.files) (hname : (root.append name).bytes = .error b) :
      RequestBreaks s config store (.get name) b
  | source {name : Text} {file : Given Text} {b : Breakdown} (hsource : SourceBreaks s file b) :
      RequestBreaks s config store (.save name file) b
  | counting {root : Path} {name text : Text} {file : Given Text} {b : Breakdown}
      (htext : Console.source s file = .ok text) (hshelf : store.shelf = .folder root s.files)
      (hlist : s.files.listable = true) (hroot : root.bytes = .error b) :
      RequestBreaks s config store (.save name file) b
  | writing {root : Path} {name text : Text} {file : Given Text} {count : Nat} {b : Breakdown}
      (htext : Console.source s file = .ok text) (hshelf : store.shelf = .folder root s.files)
      (hcount : store.shelf.count = .ok count) (hcap : (count : Int) < store.cap)
      (hname : (root.append name).bytes = .error b) :
      RequestBreaks s config store (.save name file) b
  | naming {name : Text} {file : Given Text} {done : Store} {fault : EncodeFault}
      (hsaved : saved s store name file = .ok done)
      (hname : (notice name).encode = .error fault) :
      RequestBreaks s config store (.save name file) (.unencodable fault)
  | nesting {message : Text} (hdeep : (Frame.text message).read .refuse = .error .tooDeep) :
      RequestBreaks s config store (.dispatch message) .tooDeep
  | answering {message : Text} {request : Request} {b : Breakdown}
      (hrequest : (Frame.text message).request = .ok request)
      (hbreaks : store.Breaks request b) (hreport : b.reported? = none) :
      RequestBreaks s config store (.dispatch message) b
  | infinite {message name : Text} {script : Json}
      (hrequest : (Frame.text message).request = .ok (.fetch name))
      (hscript : store.fetch name = .ok script) (hinfinite : script.isFinite = false) :
      RequestBreaks s config store (.dispatch message) .notFinite
  | binding {text : Text} (hbind : s.bind config.host config.port = some (.other text)) :
      RequestBreaks s config store .serve (.unbound (.other text))

theorem map_eq_error {α β : Type} {x : Except Failure α} {f : α → β} {e : Failure} :
    x.map f = .error e ↔ x = .error e := by
  cases x <;> simp [Except.map]

theorem list_reports {root : Path} {files : FileSystem}
    (hshelf : store.shelf = .folder root files)
    (h : (list store s.files).outcome = .error (.breakdown b)) :
    report (.breakdown b) ≠ none := by
  rw [outcome_list hshelf, map_eq_error, Store.list_breaks] at h
  cases h with
  | listing => simp [report, Breakdown.reported?]

theorem get_breaks {root : Path} {name : Text} (hshelf : store.shelf = .folder root s.files) :
    (get store s.files name).outcome = .error (.breakdown b) ↔
      RequestBreaks s config store (.get name) b := by
  rw [outcome_get, map_eq_error, Store.load_breaks]
  constructor
  · rintro ⟨root, files, hshelf', hname⟩
    cases hshelf.symm.trans hshelf'
    exact .reading hshelf hname
  · rintro ⟨hshelf, hname⟩
    exact ⟨_, _, hshelf, hname⟩

/-- What is read from a file is text, so that of the ways in which a save breaks down those remain
that have to do with paths. -/
theorem saved_breaks {root : Path} (name : Text) (file : Given Text)
    (hshelf : store.shelf = .folder root s.files) :
    saved s store name file = .error (.breakdown b) ∧ report (.breakdown b) = none ↔
      SourceBreaks s file b ∨ ∃ text, source s file = .ok text ∧
        ((s.files.listable = true ∧ root.bytes = .error b) ∨
          ∃ count, store.shelf.count = .ok count ∧ (count : Int) < store.cap ∧
            (root.append name).bytes = .error b) := by
  rw [saved, bind_eq_error, ← source_breaks]
  simp only [Store.save_breaks]
  constructor
  · rintro ⟨h | ⟨text, htext, h⟩, hreport⟩
    · exact .inl ⟨h, hreport⟩
    · refine .inr ⟨text, htext, ?_⟩
      cases h with
      | counting hshelf' hlist hroot =>
        cases hshelf.symm.trans hshelf'
        exact .inl ⟨hlist, hroot⟩
      | encoding _ _ hscript =>
        rw [Text.encode_eq_ok.mpr ⟨isScalar_of_source htext, rfl⟩] at hscript
        cases hscript
      | writing hshelf' hcount hcap _ hname =>
        cases hshelf.symm.trans hshelf'
        exact .inr ⟨_, hcount, hcap, hname⟩
  · rintro (⟨h, hreport⟩ | ⟨text, htext, ⟨hlist, hroot⟩ | ⟨count, hcount, hcap, hname⟩⟩)
    · exact ⟨.inl h, hreport⟩
    · exact ⟨.inr ⟨text, htext, .counting hshelf hlist hroot⟩, report_of_bytes hroot⟩
    · have hwriting : store.Breaks (.save ⟨name, text⟩) b :=
        .writing hshelf hcount hcap (isScalar_of_source htext) hname
      exact ⟨.inr ⟨text, htext, hwriting⟩, report_of_bytes hname⟩

theorem outcome_save_eq_error {name : Text} {file : Given Text} {e : Failure} :
    (save s store name file).outcome = .error e ↔ saved s store name file = .error e ∨
      ∃ done fault, saved s store name file = .ok done ∧ (notice name).encode = .error fault ∧
        e = Breakdown.unencodable fault := by
  rcases save_cases s store name file with
    ⟨e', hsaved, h, -⟩ | ⟨done, hsaved, -, ⟨bytes, hencode, h⟩ | ⟨fault, hencode, h⟩⟩
  · simp [hsaved, h]
  · simp [hsaved, h, hencode]
  · simp [hsaved, h, hencode, eq_comm]

theorem save_breaks {root : Path} {name : Text} {file : Given Text}
    (hshelf : store.shelf = .folder root s.files) :
    (save s store name file).outcome = .error (.breakdown b) ∧ report (.breakdown b) = none ↔
      RequestBreaks s config store (.save name file) b := by
  rw [outcome_save_eq_error]
  constructor
  · rintro ⟨h | ⟨done, fault, hsaved, hname, he⟩, hreport⟩
    · rcases (saved_breaks name file hshelf).mp ⟨h, hreport⟩ with
        h | ⟨text, htext, ⟨hlist, hroot⟩ | ⟨count, hcount, hcap, hname⟩⟩
      · exact .source h
      · exact .counting htext hshelf hlist hroot
      · exact .writing htext hshelf hcount hcap hname
    · cases he
      exact .naming hsaved hname
  · intro h
    have hbefore := (saved_breaks (b := b) name file hshelf).mpr
    cases h with
    | source h => exact (hbefore (.inl h)).imp_left .inl
    | counting htext hshelf' hlist hroot =>
      cases hshelf.symm.trans hshelf'
      exact (hbefore (.inr ⟨_, htext, .inl ⟨hlist, hroot⟩⟩)).imp_left .inl
    | writing htext hshelf' hcount hcap hname =>
      cases hshelf.symm.trans hshelf'
      exact (hbefore (.inr ⟨_, htext, .inr ⟨_, hcount, hcap, hname⟩⟩)).imp_left .inl
    | naming hsaved hname => exact ⟨.inr ⟨_, _, hsaved, hname, rfl⟩, rfl⟩

theorem dispatch_breaks {message : Text} (h : filesOf store s.files = s.files) :
    (dispatch store s.files message).outcome = .error (.breakdown b) ∧
        report (.breakdown b) = none ↔ RequestBreaks s config store (.dispatch message) b := by
  have houtcome : (dispatch store s.files message).outcome = .error (.breakdown b) ↔
      store.respond (.text message) = .error (.breakdown b) := by
    rw [dispatch_eq h]
    split <;> simp_all
  rw [houtcome, Store.respond_breaks]
  constructor
  · rintro ⟨⟨hdeep, rfl⟩ | ⟨request, hrequest, hbreaks⟩ |
      ⟨name, script, hrequest, hscript, hinfinite, rfl⟩, hreport⟩
    · exact .nesting hdeep
    · exact .answering hrequest hbreaks hreport
    · exact .infinite hrequest hscript hinfinite
  · intro h
    cases h with
    | nesting hdeep => exact ⟨.inl ⟨hdeep, rfl⟩, rfl⟩
    | answering hrequest hbreaks hreport => exact ⟨.inr (.inl ⟨_, hrequest, hbreaks⟩), hreport⟩
    | infinite hrequest hscript hinfinite =>
      exact ⟨.inr (.inr ⟨_, _, hrequest, hscript, hinfinite, rfl⟩), rfl⟩

theorem serve_breaks :
    (serve s config store).outcome = .error (.breakdown b) ∧ report (.breakdown b) = none ↔
      RequestBreaks s config store .serve b := by
  unfold serve
  constructor
  · rintro ⟨h, hreport⟩
    split at h
    · rename_i fault hbind
      cases h
      cases fault with
      | system text => cases hreport
      | other text => exact .binding hbind
    · cases h
  · intro h
    cases h with
    | binding hbind =>
      rw [hbind]
      exact ⟨rfl, rfl⟩

theorem carryOut_breaks {root : Path} (hshelf : store.shelf = .folder root s.files) :
    (carryOut s config store request).outcome = .error (.breakdown b) ∧
        report (.breakdown b) = none ↔ RequestBreaks s config store request b := by
  cases request with
  | serve => exact serve_breaks
  | list => exact ⟨fun h => absurd h.2 (list_reports hshelf h.1), fun h => (nomatch h)⟩
  | get name =>
    rw [carryOut, get_breaks hshelf]
    refine and_iff_left_of_imp ?_
    rintro ⟨-, hname⟩
    exact report_of_bytes hname
  | save name file => exact save_breaks hshelf
  | dispatch message => exact dispatch_breaks (by simp [filesOf, hshelf])

/-! ## All runs -/

/-- A breakdown that nobody catches, in opening the store or in what is then done with it. -/
inductive Escapes (s : Surroundings) (options : CommandLine.Options)
    (request : CommandLine.Request) (b : Breakdown) : Prop
  | opening (h : OpeningBreaks s options b)
  | working {config : Config} {store : Store} (hopens : Opens s options config store)
      (h : RequestBreaks s config store request b)

theorem perform_breaks :
    (perform s options request).outcome = .error (.breakdown b) ∧ report (.breakdown b) = none ↔
      Escapes s options request b := by
  rcases perform_cases s options request with ⟨e, hfails, hp⟩ | ⟨config, store, hopens, hp⟩
  · rw [hp]
    constructor
    · rintro ⟨⟨rfl⟩, -⟩
      exact .opening (failsToOpen_breakdown.mp hfails)
    · intro h
      cases h with
      | opening h =>
        have hp' := perform_of_failsToOpen (failsToOpen_breakdown.mpr h) request
        exact ⟨congrArg Progress.outcome (hp.symm.trans hp'), h.report_eq_none⟩
      | working hopens => exact absurd hopens (not_opens_of_failsToOpen hfails)
  · obtain ⟨root, hshelf⟩ := hopens.exists_shelf
    rw [hp, carryOut_breaks hshelf]
    constructor
    · exact .working hopens
    · intro h
      cases h with
      | opening h => exact absurd hopens (not_opens_of_failsToOpen (failsToOpen_breakdown.mpr h))
      | working hopens' h =>
        cases hopens.resolved.symm.trans hopens'.resolved
        cases hopens.opened.symm.trans hopens'.opened
        exact h

/-- A run that understands its command line exits with code 0, or with code 1 once it has written
an error line, or breaks down; and it breaks down only where its request escapes. -/
theorem run_reports_or_breaks (s : Surroundings) {arguments : List Text}
    {invocation : CommandLine.Invocation} (h : CommandLine.parse arguments = .ok invocation) :
    let r := run s arguments
    (r.ending = .exit 0 ∨ (r.ending = .exit 1 ∧ ∃ m, r.Reports m) ∨ ∃ b, r.ending = .broken b) ∧
      ∀ b, r.ending = .broken b ↔
        ∃ request, invocation.request = some request ∧ Escapes s invocation.options request b := by
  intro r
  obtain ⟨options, request⟩ := invocation
  cases request with
  | none =>
    have hending : r.ending = .exit 0 := by
      simp [r, run, h]
    simp [hending]
  | some request =>
    simp only [Option.some.injEq, exists_eq_left', ← perform_breaks]
    rcases run_cases s h with
      ⟨hp, hending⟩ | ⟨e, m, hp, hreport, hending, hm⟩ | ⟨b, hp, hreport, hending⟩
    · exact ⟨.inl hending, by simp [r, hending, hp]⟩
    · refine ⟨.inr (.inl ⟨hending, m, hm⟩), ?_⟩
      intro b
      simp only [r, hending, hp, reduceCtorEq, false_iff, Except.error.injEq]
      rintro ⟨rfl, hnone⟩
      cases hreport.symm.trans hnone
    · refine ⟨.inr (.inr ⟨b, hending⟩), ?_⟩
      intro b'
      simp only [r, hending, hp, Ending.broken.injEq, Except.error.injEq, Failure.breakdown.injEq]
      constructor
      · rintro rfl
        exact ⟨rfl, hreport⟩
      · exact And.left

theorem run_reports_or_breaks_missing :
    CommandLine.parse ["get", "b"] = .ok ⟨{}, some (.get "b")⟩ ∧
      (run (workshop []) ["get", "b"]).ending = .exit 1 ∧
      (∃ m, (run (workshop []) ["get", "b"]).Reports m) ∧
      ∀ b, ¬Escapes (workshop []) {} (.get "b") b := by
  have hparse : CommandLine.parse ["get", "b"] = .ok ⟨{}, some (.get "b")⟩ := rfl
  have hending : (run (workshop []) ["get", "b"]).ending = .exit 1 := by decide +kernel
  obtain ⟨hcases, hbroken⟩ := run_reports_or_breaks (workshop []) hparse
  rw [hending] at hcases
  simp only [hending, reduceCtorEq, false_iff, not_exists] at hbroken
  refine ⟨hparse, hending, ?_, fun b h => hbroken b (.get "b") ⟨rfl, h⟩⟩
  rcases hcases with h | ⟨-, hm⟩ | ⟨b, h⟩
  · cases h
  · exact hm
  · cases h

/-- A script that is not text is not reported. -/
theorem undecodable_input_escapes :
    (run (workshop [0xFF]) ["save", "a", "-"]).ending =
      .broken (.undecodable ⟨.utf8, 0xFF, 0, 1, .badStart⟩) := by
  decide +kernel

end Console

end ScriptDepot
