import ScriptDepot.Console.Footprint
import ScriptDepot.Proofs.Breakdown
import ScriptDepot.Proofs.Json.Written
import ScriptDepot.Proofs.Reply
import ScriptDepot.Proofs.Utf8.Strict
/-!
# How a run goes

A request is carried out once the configuration is read and the store is opened.  What it prints is
text throughout, but for the name of a script that was saved; answering a message prints and leaves
behind exactly what the endpoint would send and leave behind.  A failure that the run reports is the
last line on standard error.
-/

namespace ScriptDepot

namespace Text

variable {s t : Text}

@[simp] theorem isScalar_append : isScalar (s ++ t) = (isScalar s && isScalar t) := by
  simp [isScalar]

theorem isScalar_of_printable (h : t.Printable) : t.isScalar = true := by
  refine List.all_eq_true.mpr ?_
  intro c hc
  have hrange := h c hc
  simp only [CodePoint.isSurrogate, Bool.not_eq_true', Bool.and_eq_false_iff,
    decide_eq_false_iff_not]
  omega

theorem isScalar_ofNat (n : Nat) : (ofNat n).isScalar = true :=
  isScalar_of_printable (digits_ofNat n).printable

theorem isScalar_ofInt (n : Int) : (ofInt n).isScalar = true := by
  cases n with
  | ofNat n => exact isScalar_ofNat n
  | negSucc n =>
    have hsign : ofInt (.negSucc n) = ("-" : Text) ++ ofNat (n + 1) := rfl
    rw [hsign, isScalar_append, isScalar_ofNat]
    rfl

theorem isScalar_normalizeNewlines (h : t.isScalar = true) :
    t.normalizeNewlines.isScalar = true := by
  have hfeed : ('\n' : CodePoint).isSurrogate = false := rfl
  induction t using normalizeNewlines.induct with
  | case1 => rfl
  | _ => simp_all [normalizeNewlines, isScalar]

theorem spellSurrogates_append :
    (s ++ t).spellSurrogates = s.spellSurrogates ++ t.spellSurrogates :=
  List.flatMap_append

end Text

theorem Response.isScalar_of_encode {response : Response} {text : Text}
    (h : response.encode = .ok text) : text.isScalar = true := by
  obtain ⟨-, rfl⟩ := Response.encode_eq_ok h
  exact Text.isScalar_of_printable (Json.printable_write Json.lawful_spaced _)

namespace Console

/-! ## Printing -/

theorem files_print (lines : List Text) (p : Progress) : (print lines p).files = p.files := by
  induction lines generalizing p with
  | nil => rfl
  | cons line rest ih =>
    rw [print]
    split
    · rfl
    · rw [ih]

theorem print_of_scalar {lines : List Text} (h : ∀ line ∈ lines, line.isScalar = true)
    (p : Progress) :
    print lines p =
      { p with printed := p.printed ++ lines.flatMap fun line => line ++ ("\n" : Text) } := by
  induction lines generalizing p with
  | nil => simp [print]
  | cons line rest ih =>
    have hline : line.encode = .ok line.utf8 :=
      Text.encode_eq_ok.mpr ⟨h line List.mem_cons_self, rfl⟩
    have hrest : ∀ other ∈ rest, other.isScalar = true :=
      fun other hother => h other (List.mem_cons_of_mem line hother)
    simp [print, hline, ih hrest]

/-! ## Opening the store -/

structure Opens (s : Surroundings) (options : CommandLine.Options) (config : Config)
    (store : Store) : Prop where
  resolved : Config.resolve s.env options.overrides = .ok config
  opened : config.openStore s.homes s.files = .ok store

def carryOut (s : Surroundings) (config : Config) (store : Store) :
    CommandLine.Request → Progress
  | .serve => serve s config store
  | .list => list store s.files
  | .get name => get store s.files name
  | .save name file => save s store name file
  | .dispatch message => dispatch store s.files message

variable {s : Surroundings} {options : CommandLine.Options} {config : Config} {store : Store}

inductive FailsToOpen (s : Surroundings) (options : CommandLine.Options) (e : Failure) : Prop
  | unresolved (h : Config.resolve s.env options.overrides = .error e)
  | unopened {config : Config} (hconfig : Config.resolve s.env options.overrides = .ok config)
      (h : config.openStore s.homes s.files = .error e)

theorem perform_of_opens (h : Opens s options config store) (request : CommandLine.Request) :
    perform s options request = carryOut s config store request := by
  obtain ⟨hresolved, hopened⟩ := h
  cases request <;>
    simp [perform, carryOut, hresolved, hopened, bind, Except.bind, pure, Except.pure]

theorem perform_of_failsToOpen {e : Failure} (h : FailsToOpen s options e)
    (request : CommandLine.Request) :
    perform s options request = { outcome := .error e, files := s.files } := by
  cases h with
  | unresolved h => simp [perform, h, bind, Except.bind]
  | unopened hconfig h => simp [perform, hconfig, h, bind, Except.bind]

theorem perform_cases (s : Surroundings) (options : CommandLine.Options)
    (request : CommandLine.Request) :
    (∃ e, FailsToOpen s options e ∧
      perform s options request = { outcome := .error e, files := s.files }) ∨
      ∃ config store, Opens s options config store ∧
        perform s options request = carryOut s config store request := by
  cases hresolved : Config.resolve s.env options.overrides with
  | error e =>
    have hfails : FailsToOpen s options e := .unresolved hresolved
    exact .inl ⟨e, hfails, perform_of_failsToOpen hfails request⟩
  | ok config =>
    cases hopened : config.openStore s.homes s.files with
    | error e =>
      have hfails : FailsToOpen s options e := .unopened hresolved hopened
      exact .inl ⟨e, hfails, perform_of_failsToOpen hfails request⟩
    | ok store =>
      have hopens : Opens s options config store := ⟨hresolved, hopened⟩
      exact .inr ⟨config, store, hopens, perform_of_opens hopens request⟩

end Console

theorem Homes.find_unreported {homes : Homes} {user : Text} {b : Breakdown}
    (h : homes.find user = .error b) : b.reported? = none := by
  unfold find at h
  split at h
  · cases h
  · rcases bind_eq_error.mp h with h | ⟨name, -, h⟩
    · exact Text.systemBytes_unreported h
    · split at h <;> cases h
      rfl

theorem Path.homeOf_unreported {homes : Homes} {first : Text} {b : Breakdown}
    (h : homeOf homes first = .error b) : b.reported? = none := by
  rcases bind_eq_error.mp h with h | ⟨folder, -, h⟩
  · exact Homes.find_unreported h
  · dsimp only at h
    split at h <;> split at h <;> cases h <;> rfl

theorem Path.expandHome_unreported {homes : Homes} {p : Path} {b : Breakdown}
    (h : p.expandHome homes = .error b) : b.reported? = none := by
  unfold expandHome at h
  split at h
  · split at h
    · rcases bind_eq_error.mp h with h | ⟨folder, -, h⟩
      · exact homeOf_unreported h
      · cases h
    · cases h
  · cases h

theorem Config.openStore_eq_ok {config : Config} {homes : Homes} {files : FileSystem}
    {store : Store} :
    config.openStore homes files = .ok store ↔
      ∃ folder root, config.scriptsDir = .value folder ∧
        (Path.parse folder).expandHome homes = .ok root ∧
        store = ⟨.folder root files, config.maxScripts, config.serializeSaves⟩ := by
  unfold Config.openStore
  cases config.scriptsDir with
  | nothing => simp
  | value folder =>
    cases hroot : (Path.parse folder).expandHome homes <;>
      simp [Shelf.onFolder, hroot, bind, Except.bind, pure, Except.pure, eq_comm]

theorem Config.openStore_eq_error {config : Config} {homes : Homes} {files : FileSystem}
    {e : Failure} :
    config.openStore homes files = .error e ↔
      (config.scriptsDir = .nothing ∧ e = Breakdown.withheld .path) ∨
      ∃ folder b, config.scriptsDir = .value folder ∧
        (Path.parse folder).expandHome homes = .error b ∧ e = Failure.breakdown b := by
  unfold Config.openStore
  cases config.scriptsDir with
  | nothing => simp [eq_comm]
  | value folder =>
    cases hroot : (Path.parse folder).expandHome homes <;>
      simp [Shelf.onFolder, hroot, bind, Except.bind, pure, Except.pure, eq_comm]

namespace Console

variable {s : Surroundings} {options : CommandLine.Options} {config : Config} {store : Store}

theorem Opens.exists_shelf (h : Opens s options config store) :
    ∃ root, store.shelf = .folder root s.files := by
  obtain ⟨folder, root, -, -, rfl⟩ := Config.openStore_eq_ok.mp h.opened
  exact ⟨root, rfl⟩

theorem Opens.filesOf (h : Opens s options config store) : filesOf store s.files = s.files := by
  obtain ⟨root, hshelf⟩ := h.exists_shelf
  simp [Console.filesOf, hshelf]

/-! ## Answering a message -/

/-- Answering a message prints the text that the endpoint would send and leaves the files that it
would leave; where the endpoint fails, nothing is printed and nothing changes. -/
theorem dispatch_eq (h : filesOf store s.files = s.files) (message : Text) :
    dispatch store s.files message =
      match store.respond (.text message) with
      | .ok (text, after) =>
        { outcome := .ok (), printed := text ++ "\n"
          log := (store.receive (.text message) none).log, files := filesOf after s.files }
      | .error e =>
        { outcome := .error e, log := (store.receive (.text message) none).log
          files := s.files } := by
  rw [store.respond_of_receive (.text message) none]
  unfold dispatch after
  cases houtcome : (store.receive (.text message) none).outcome with
  | error e => simp [bind, Except.bind]
  | ok done =>
    obtain ⟨response, next⟩ := done
    cases hencode : response.encode with
    | error e =>
      have hnext : next = store := Store.receive_encode_eq_error houtcome hencode
      simp [hencode, hnext, h, bind, Except.bind]
    | ok text =>
      have hlines : ∀ line ∈ [text], line.isScalar = true := by
        simpa using Response.isScalar_of_encode hencode
      simp [hencode, print_of_scalar hlines, bind, Except.bind]

/-! ## The end of a run -/

/-- What a run says about a failure, if it catches it. -/
def report : Failure → Option Text
  | .refusal r => some r.text
  | .breakdown b => b.reported?

theorem report_of_openStore {config : Config} {homes : Homes} {files : FileSystem} {e : Failure}
    (h : config.openStore homes files = .error e) : report e = none := by
  rcases Config.openStore_eq_error.mp h with ⟨-, rfl⟩ | ⟨folder, b, -, hhome, rfl⟩
  · rfl
  · exact Path.expandHome_unreported hhome

/-- `r.Reports m` says that the last line on standard error is the error line for `m`. -/
def Run.Reports (r : Run) (m : Text) : Prop :=
  ∀ trace, ∃ before : Text, (before = [] ∨ before.getLast? = some ('\n' : CodePoint)) ∧
    r.stderrText trace = before ++ Text.spellSurrogates ("Error: " ++ m ++ "\n")

theorem reports_of_stderr {r : Run} {m : Text} (notices : List Notice)
    (h : r.stderr = notices ++ [.line ("Error: " ++ m)]) : r.Reports m := by
  intro trace
  refine ⟨Text.spellSurrogates (notices.flatMap (·.text trace)), ?_, ?_⟩
  · rcases List.eq_nil_or_concat notices with rfl | ⟨front, last, rfl⟩
    · exact .inl rfl
    · right
      have hlast : ∃ t : Text, last.text trace = t ++ "\n" := by
        cases last with
        | line t => exact ⟨t, rfl⟩
        | record r =>
          simp only [Notice.text]
          split <;> exact ⟨_, rfl⟩
      obtain ⟨t, ht⟩ := hlast
      rw [List.concat_eq_append, List.flatMap_append, List.flatMap_singleton, ht,
        ← List.append_assoc,
        Text.spellSurrogates_append]
      have hfeed : Text.spellSurrogates "\n" = ("\n" : Text) := rfl
      rw [hfeed]
      exact List.getLast?_concat
  · rw [Run.stderrText, h, List.flatMap_append, Text.spellSurrogates_append,
      List.flatMap_singleton]
    rfl

theorem run_of_parse {arguments : List Text} {request : CommandLine.Request} (s : Surroundings)
    (hparse : CommandLine.parse arguments = .ok ⟨options, some request⟩) :
    let r := run s arguments
    let p := perform s options request
    r.files = p.files ∧ r.stdout = p.printed ∧ r.ending = (conclude request p.outcome).1 ∧
      r.stderr = (p.log.map Notice.record ++ (conclude request p.outcome).2).filter
        (isShown options.debug) := by
  simp [run, hparse]

theorem run_cases {arguments : List Text} {request : CommandLine.Request} (s : Surroundings)
    (hparse : CommandLine.parse arguments = .ok ⟨options, some request⟩) :
    let r := run s arguments
    let p := perform s options request
    (p.outcome = .ok () ∧ r.ending = .exit 0) ∨
      (∃ e m, p.outcome = .error e ∧ report e = some m ∧ r.ending = .exit 1 ∧ r.Reports m) ∨
      ∃ b, p.outcome = .error (.breakdown b) ∧ report (.breakdown b) = none ∧
        r.ending = .broken b := by
  intro r p
  obtain ⟨-, -, hending, hstderr⟩ := run_of_parse s hparse
  -- An error line is shown at every level, so it stays the last one.
  have hline : ∀ notices m, (conclude request p.outcome).2 = notices ++ [.line ("Error: " ++ m)] →
      r.Reports m := by
    intro notices m h
    refine reports_of_stderr
      ((p.log.map Notice.record ++ notices).filter (isShown options.debug)) ?_
    rw [hstderr, h, ← List.append_assoc, List.filter_append]
    rfl
  cases houtcome : p.outcome with
  | ok => exact .inl ⟨rfl, by rw [hending, houtcome]; rfl⟩
  | error e =>
    rw [houtcome] at hending hline
    right
    cases e with
    | refusal refusal =>
      exact .inl ⟨_, refusal.text, rfl, rfl, hending, hline [_] _ rfl⟩
    | breakdown b =>
      cases hreported : b.reported? with
      | some m =>
        rw [conclude, hreported] at hending hline
        exact .inl ⟨_, m, rfl, hreported, hending, hline [] _ rfl⟩
      | none =>
        rw [conclude, hreported] at hending
        exact .inr ⟨b, rfl, hreported, hending⟩

/-- Surroundings in which the working folder has a folder `scripts` with one script in it. -/
def workshop (stdin : Bytes) : Surroundings where
  env := []
  homes := ⟨"/home", [(("root" : Text).utf8, "/root")]⟩
  stdin := stdin
  files :=
    { nodes := ⟨[([("work" : Text).utf8], .folder),
        ([("work" : Text).utf8, ("scripts" : Text).utf8], .folder),
        ([("work" : Text).utf8, ("scripts" : Text).utf8, ("a" : Text).utf8],
          .file ("[1]" : Text).utf8)],
        by decide⟩
      here := [("work" : Text).utf8] }
  bind := fun _ _ => none
  connections := []
  interrupted := false

end Console

end ScriptDepot
