import ScriptDepot.Proofs.CommandLine.Options
import ScriptDepot.Proofs.Console.Run
/-!
# One message on the command line

A message that is given on the command line is answered as the endpoint answers it.  The reply is
printed when it is a response, and its text stands in the error line when it is a refusal; where the
endpoint owns up to nothing but an internal error, the run is not caught.
-/

namespace ScriptDepot

namespace CommandLine

theorem parse_dispatch {folder message : Text} (hfolder : folder.head? ≠ some dash)
    (hmessage : message.head? ≠ some dash) :
    parse ["--dir", folder, "dispatch", message] =
      .ok ⟨{ overrides := { scriptsDir := some (.value folder) } }, some (.dispatch message)⟩ := by
  have hdir : classify globalFlags "--dir" =
      .ok (.option ⟨⟨.dir, ["--dir"], true⟩, "--dir", none⟩) := rfl
  have hcommand : ("dispatch" : Text).head? ≠ some dash := by decide
  have hscan : scan globalFlags ["--dir", folder, "dispatch", message] =
      .ok ⟨[⟨"--dir", .option ⟨⟨.dir, ["--dir"], true⟩, "--dir", none⟩⟩, ⟨folder, .word⟩,
        ⟨"dispatch", .word⟩, ⟨message, .word⟩], none⟩ := by
    rw [scan, if_neg (by decide), hdir, scan_word hfolder, scan_word hcommand, scan_word hmessage]
    rfl
  have harguments : scan Subcommand.dispatch.flags [message] = .ok ⟨[⟨message, .word⟩], none⟩ := by
    rw [scan_word hmessage]
    rfl
  have hheading : readHeading globalFlags effect none
      [⟨"--dir", .option ⟨⟨.dir, ["--dir"], true⟩, "--dir", none⟩⟩, ⟨folder, .word⟩,
        ⟨"dispatch", .word⟩, ⟨message, .word⟩] {} =
      .ok ⟨{ overrides := { scriptsDir := some (.value folder) } },
        some ("dispatch", [message]), []⟩ := rfl
  have hname : Subcommand.ofName? "dispatch" = some .dispatch := rfl
  have hread : parseArguments .dispatch { overrides := { scriptsDir := some (.value folder) } }
      [message] = .ok ({ overrides := { scriptsDir := some (.value folder) } },
        .dispatch message, []) := by
    unfold parseArguments
    rw [harguments]
    rfl
  unfold parse
  simp only [hscan, hheading, hname, hread]
  rfl

end CommandLine

namespace Config

theorem resolve_folder {env : Environment}
    (henv : ∀ name ∈ variableNames, Assoc.get? name env = none) (folder : Text) :
    resolve env { scriptsDir := some (.value folder) } =
      Settings.check { scriptsDir := .value folder } := by
  simp only [variableNames, List.forall_mem_cons] at henv
  obtain ⟨hdir, hmax, hhost, hport, hserialize, -⟩ := henv
  simp only [resolve, ofEnvironment, Environment.integer, Environment.text, Environment.value?,
    hdir, hmax, hhost, hport, hserialize]
  rfl

end Config

/-- The system can look the path up, so far as lengths go. -/
def Path.Fits (p : Path) : Prop := ∀ path, p.bytes = .ok path → ¬ FileSystem.TooLong path

namespace Store

theorem respond_unreported {store : Store} {root : Path} {files : FileSystem}
    (hshelf : store.shelf = .folder root files) (hroot : root.Fits) {frame : Frame} {b : Breakdown}
    (h : store.respond frame = .error (.breakdown b)) : b.reported? = none := by
  rcases respond_breaks.mp h with ⟨-, rfl⟩ | ⟨request, -, hbreaks⟩ | ⟨name, script, -, -, -, rfl⟩
  · rfl
  · by_contra hreported
    obtain ⟨root', files', path, hshelf', hpath, hlong⟩ := hbreaks.tooLong hreported
    rw [hshelf] at hshelf'
    cases hshelf'
    exact hroot path hpath hlong
  · rfl

end Store

namespace Console

/-- `r.Matches reply` says that a run that answers one message ends in the way that goes with the
reply of the endpoint. -/
inductive Run.Matches (r : Run) (reply : Text) : Prop
  | answered (hending : r.ending = .exit 0) (hstdout : r.stdout = reply ++ "\n")
  | refused {m : Text} (hending : r.ending = .exit 1) (hstdout : r.stdout = [])
      (hstderr : r.Reports m) (hreply : reply = errorReply m)
  | broken {b : Breakdown} (hending : r.ending = .broken b)
      (hreply : reply = errorReply "internal server error")

theorem dispatch_matches {s : Surroundings} {arguments : List Text}
    {options : CommandLine.Options} {message : Text} {config : Config} {store : Store}
    (hparse : CommandLine.parse arguments = .ok ⟨options, some (.dispatch message)⟩)
    (hopens : Opens s options config store)
    (hunreported : ∀ b, store.respond (.text message) = .error (.breakdown b) →
      b.reported? = none) :
    (run s arguments).files = filesOf (store.handle (.text message) none).value.2 s.files ∧
      (run s arguments).Matches (store.handle (.text message) none).value.1 := by
  obtain ⟨hfiles, hstdout, -, -⟩ := run_of_parse s hparse
  have hend := run_cases s hparse
  rw [perform_of_opens hopens, carryOut, dispatch_eq hopens.filesOf] at hfiles hstdout hend
  rw [Store.handle_value]
  cases hdone : store.respond (.text message) with
  | ok done =>
    rw [hdone] at hfiles hstdout hend
    refine ⟨hfiles, ?_⟩
    rcases hend with ⟨-, hending⟩ | ⟨e, m, h, -⟩ | ⟨b, h, -⟩
    · exact .answered hending hstdout
    · cases h
    · cases h
  | error e =>
    rw [hdone] at hfiles hstdout hend
    refine ⟨hfiles.trans hopens.filesOf.symm, ?_⟩
    rcases hend with ⟨h, -⟩ | ⟨e', m, h, hreport, hending, hreports⟩ | ⟨b, h, -, hending⟩
    · cases h
    · cases h
      cases e with
      | refusal r =>
        cases hreport
        exact .refused hending hstdout hreports rfl
      -- a breakdown that has an error line is ruled out by assumption
      | breakdown b => cases hreport.symm.trans (hunreported b hdone)
    · cases h
      exact .broken hending rfl

/-- A message on the command line is answered as the endpoint answers it on the same folder, and
leaves the same files.  Where no store can be opened on the folder there is no endpoint either, and
the run breaks down on the same fault and leaves everything as it was. -/
theorem dispatch_matches_endpoint (s : Surroundings) (folder message : Text) (config : Config)
    (henv : ∀ name ∈ Config.variableNames, Assoc.get? name s.env = none)
    (hfolder : folder.head? ≠ some CommandLine.dash)
    (hmessage : message.head? ≠ some CommandLine.dash)
    (hconfig : Settings.check { scriptsDir := .value folder } = .ok config)
    (hfits : ∀ root, (Path.parse folder).expandHome s.homes = .ok root → root.Fits) :
    let r := run s ["--dir", folder, "dispatch", message]
    (∀ e, config.openStore s.homes s.files = .error e →
      ∃ b, e = Failure.breakdown b ∧ r.ending = .broken b ∧ r.stdout = [] ∧ r.files = s.files) ∧
    ∀ store, config.openStore s.homes s.files = .ok store →
      let done := (store.handle (.text message) none).value
      r.files = filesOf done.2 s.files ∧ r.Matches done.1 := by
  intro r
  have hparse := CommandLine.parse_dispatch hfolder hmessage
  have hresolve := (Config.resolve_folder henv folder).trans hconfig
  have hdir : config.scriptsDir = .value folder := by
    cases hconfig
    rfl
  refine ⟨?_, ?_⟩
  · intro e hclosed
    obtain ⟨hfiles, hstdout, -, -⟩ := run_of_parse s hparse
    have hend := run_cases s hparse
    rw [perform_of_failsToOpen (.unopened hresolve hclosed)] at hfiles hstdout hend
    have hreport := report_of_openStore hclosed
    rcases hend with ⟨h, -⟩ | ⟨e', m, h, hcaught, -⟩ | ⟨b, h, -, hending⟩
    · cases h
    · cases h
      rw [hreport] at hcaught
      cases hcaught
    · cases h
      exact ⟨b, rfl, hending, hstdout, hfiles⟩
  · intro store hopened
    have hopens : Opens s { overrides := { scriptsDir := some (.value folder) } } config store :=
      ⟨hresolve, hopened⟩
    obtain ⟨folder', root, hdir', hroot, rfl⟩ := Config.openStore_eq_ok.mp hopened
    rw [hdir] at hdir'
    cases hdir'
    exact dispatch_matches hparse hopens fun b =>
      Store.respond_unreported rfl (hfits root hroot)

def savingMessage : Text :=
  "\x7b\"what\":\"savescript\",\"data\":\x7b\"name\":\"b\",\"script\":\"2\"\x7d\x7d"

theorem fits_scripts {homes : Homes} {root : Path}
    (h : (Path.parse "scripts").expandHome homes = .ok root) : root.Fits := by
  cases h
  intro path hpath
  cases hpath
  unfold FileSystem.TooLong
  decide +kernel

theorem dispatch_matches_endpoint_saving :
    ∃ config store, Settings.check { scriptsDir := .value "scripts" } = .ok config ∧
      config.openStore (workshop []).homes (workshop []).files = .ok store ∧
      (run (workshop []) ["--dir", "scripts", "dispatch", savingMessage]).files =
        filesOf (store.handle (.text savingMessage) none).value.2 (workshop []).files ∧
      (run (workshop []) ["--dir", "scripts", "dispatch", savingMessage]).Matches
        (store.handle (.text savingMessage) none).value.1 := by
  have hmatch := dispatch_matches_endpoint (workshop []) "scripts" savingMessage _
    (fun _ _ => rfl) (by decide) (by decide) rfl (fun _ => fits_scripts)
  exact ⟨_, _, rfl, rfl, hmatch.2 _ rfl⟩

/-- A folder may start from a home that is not known without its first character being `~`.  Then
the run breaks down, and there is no endpoint that could reply. -/
theorem unknown_home_has_no_endpoint :
    ("./~x" : Text).head? ≠ some CommandLine.dash ∧ ("./~x" : Text).head? ≠ some '~' ∧
      (Path.parse "./~x").Fits ∧
      (run (workshop []) ["--dir", "./~x", "dispatch", savingMessage]).ending = .broken .noHome ∧
      ∀ config store, Settings.check { scriptsDir := .value "./~x" } = .ok config →
        config.openStore (workshop []).homes (workshop []).files ≠ .ok store := by
  refine ⟨by decide, by decide, ?_, by decide +kernel, ?_⟩
  · intro path hpath
    cases hpath
    unfold FileSystem.TooLong
    decide +kernel
  · intro config store hconfig
    cases hconfig
    intro h
    cases h

end Console

end ScriptDepot
