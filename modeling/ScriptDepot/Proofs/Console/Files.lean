import ScriptDepot.Proofs.Console.Run
/-!
# The files after a run

Whatever can go wrong with a run goes wrong before it writes, with one exception: the name of a
saved script is printed once the script is written, and a name that stands for raw bytes has no text
to print.  Reading requests change nothing, and a message changes something only when it is told
that its script was written.
-/

namespace ScriptDepot

namespace Console

variable {s : Surroundings} {store : Store}

theorem files_after {α : Type} (work : Act α) {files : FileSystem} {next : α → Progress}
    (h : ∀ a, (next a).files = files) : (after work files next).files = files := by
  unfold after
  split
  · rfl
  · exact h _

theorem files_list (store : Store) (files : FileSystem) : (list store files).files = files := by
  apply files_after
  intro names
  exact files_print _ _

theorem files_get (store : Store) (files : FileSystem) (name : Text) :
    (get store files name).files = files := by
  apply files_after
  intro text
  exact files_print _ _

/-! ## Saving -/

def saved (s : Surroundings) (store : Store) (name : Text) (file : Given Text) :
    Except Failure Store := do
  let text ← source s file
  (store.save name text).outcome

def notice (name : Text) : Text := "Saved → " ++ name

theorem save_eq_after (s : Surroundings) (store : Store) (name : Text) (file : Given Text) :
    ∃ work : Act Store, work.outcome = saved s store name file ∧
      save s store name file = after work s.files fun done =>
        print [notice name] { outcome := .ok (), files := filesOf done s.files } := by
  refine ⟨_, ?_, rfl⟩
  simp only [Act.outcome_bind, Act.outcome_ofExcept, Act.outcome_note, Act.outcome_pure, saved]
  congr 1
  funext text
  cases (store.save name text).outcome <;> rfl

/-- A save that goes through leaves its files even when the name cannot be printed. -/
theorem save_cases (s : Surroundings) (store : Store) (name : Text) (file : Given Text) :
    (∃ e, saved s store name file = .error e ∧ (save s store name file).outcome = .error e ∧
      (save s store name file).files = s.files) ∨
    ∃ done, saved s store name file = .ok done ∧
      (save s store name file).files = filesOf done s.files ∧
      ((∃ bytes, (notice name).encode = .ok bytes ∧ (save s store name file).outcome = .ok ()) ∨
        ∃ fault, (notice name).encode = .error fault ∧
          (save s store name file).outcome = .error (Breakdown.unencodable fault)) := by
  obtain ⟨work, hwork, hsave⟩ := save_eq_after s store name file
  rw [hsave, ← hwork]
  unfold after
  cases work.outcome with
  | error e => exact .inl ⟨e, rfl, rfl, rfl⟩
  | ok done =>
    refine .inr ⟨done, rfl, files_print _ _, ?_⟩
    cases hnotice : (notice name).encode with
    | ok bytes => exact .inl ⟨bytes, rfl, by simp [print, hnotice]⟩
    | error fault => exact .inr ⟨fault, rfl, by simp [print, hnotice]⟩

theorem isScalar_notice (name : Text) : (notice name).isScalar = name.isScalar := by
  have hstart : Text.isScalar "Saved → " = true := by decide
  rw [notice, Text.isScalar_append, hstart, Bool.true_and]

theorem encode_notice_eq_error {name : Text} {fault : EncodeFault}
    (h : (notice name).encode = .error fault) : name.isScalar = false := by
  rw [← isScalar_notice]
  cases hscalar : (notice name).isScalar with
  | false => rfl
  | true =>
    rw [Text.encode_eq_ok.mpr ⟨hscalar, rfl⟩] at h
    cases h

/-! ## Answering a message -/

theorem dispatch_keeps_or_writes (h : filesOf store s.files = s.files) (message : Text) :
    (dispatch store s.files message).files = s.files ∨
      (∃ new, (Frame.text message).request = .ok (.save new)) ∧
        (dispatch store s.files message).outcome = .ok () ∧
        (dispatch store s.files message).printed = ReplyKind.written.reply .null ++ "\n" := by
  rw [dispatch_eq h]
  cases hdone : store.respond (.text message) with
  | error e => exact .inl rfl
  | ok done =>
    obtain ⟨text, next⟩ := done
    obtain ⟨request, hrequest, hdone⟩ := bind_eq_ok.mp hdone
    obtain ⟨⟨response, next'⟩, hanswer, hdone⟩ := bind_eq_ok.mp hdone
    obtain ⟨text', hencode, hdone⟩ := bind_eq_ok.mp hdone
    cases hdone
    cases Store.answer_effect hanswer hencode with
    | failed | listed | fetched | unspecified => exact .inl h
    | saved => exact .inr ⟨⟨_, hrequest⟩, rfl, rfl⟩

/-! ## All runs -/

def reads : CommandLine.Request → Bool
  | .list | .get _ => true
  | _ => false

theorem files_perform (s : Surroundings) (options : CommandLine.Options)
    (request : CommandLine.Request) :
    let p := perform s options request
    p.files = s.files ∨ p.outcome = .ok () ∨
      ∃ name file fault, request = .save name file ∧ name.isScalar = false ∧
        p.outcome = .error (Breakdown.unencodable fault) := by
  intro p
  rcases perform_cases s options request with ⟨e, -, hp⟩ | ⟨config, store, hopens, hp⟩
  · exact .inl (by rw [show p = _ from hp])
  rw [show p = carryOut s config store request from hp]
  cases request with
  | serve =>
    rw [carryOut, serve]
    split
    · exact .inl rfl
    · exact .inr (.inl rfl)
  | list => exact .inl (files_list _ _)
  | get name => exact .inl (files_get _ _ _)
  | save name file =>
    rcases save_cases s store name file with
      ⟨e, -, -, hfiles⟩ | ⟨done, -, -, ⟨_, -, h⟩ | ⟨fault, hfault, h⟩⟩
    · exact .inl hfiles
    · exact .inr (.inl h)
    · exact .inr (.inr ⟨name, file, fault, rfl, encode_notice_eq_error hfault, h⟩)
  | dispatch message =>
    rcases dispatch_keeps_or_writes hopens.filesOf message with hfiles | ⟨-, h, -⟩
    · exact .inl hfiles
    · exact .inr (.inl h)

theorem files_perform_of_reads (s : Surroundings) (options : CommandLine.Options)
    {request : CommandLine.Request} (h : reads request = true) :
    (perform s options request).files = s.files := by
  rcases perform_cases s options request with ⟨e, -, hp⟩ | ⟨config, store, hopens, hp⟩
  · rw [hp]
  · rw [hp]
    cases request with
    | list => exact files_list _ _
    | get name => exact files_get _ _ _
    | _ => cases h

theorem run_of_no_request {arguments : List Text} (h : request? arguments = none) :
    (run s arguments).files = s.files := by
  unfold request? at h
  unfold run
  split at h
  · subst h
    simp_all
  · simp_all

theorem parse_of_request {arguments : List Text} {request : CommandLine.Request}
    (h : request? arguments = some request) :
    ∃ options, CommandLine.parse arguments = .ok ⟨options, some request⟩ := by
  unfold request? at h
  split at h
  · rename_i options found hparse
    subst h
    exact ⟨options, hparse⟩
  · cases h

/-- A run that fails leaves the files as they were, unless it saves a script whose name cannot be
printed; a run that reads leaves them in any case, and one that answers a message unless it prints
that the script in the message was written. -/
theorem failed_run_keeps_files (s : Surroundings) (arguments : List Text) :
    let r := run s arguments
    (r.ending ≠ .exit 0 →
      r.files = s.files ∨ ∃ name file fault, request? arguments = some (.save name file) ∧
        name.isScalar = false ∧ r.ending = .broken (.unencodable fault)) ∧
    (∀ request, request? arguments = some request → reads request = true → r.files = s.files) ∧
    ∀ message, request? arguments = some (.dispatch message) →
      r.files = s.files ∨ (∃ new, (Frame.text message).request = .ok (.save new)) ∧
        r.ending = .exit 0 ∧ r.stdout = ReplyKind.written.reply .null ++ "\n" := by
  intro r
  cases hrequest : request? arguments with
  | none => exact ⟨fun _ => .inl (run_of_no_request hrequest), by simp, by simp⟩
  | some request =>
    obtain ⟨options, hparse⟩ := parse_of_request hrequest
    obtain ⟨hfiles, hstdout, hending, -⟩ := run_of_parse s hparse
    refine ⟨?_, ?_, ?_⟩
    · intro hfailed
      rcases files_perform s options request with h | h | ⟨name, file, fault, rfl, hname, h⟩
      · exact .inl (hfiles.trans h)
      · rw [h] at hending
        exact absurd hending hfailed
      · rw [h] at hending
        exact .inr ⟨name, file, fault, rfl, hname, hending⟩
    · rintro _ ⟨rfl⟩ hreads
      rw [hfiles]
      exact files_perform_of_reads s options hreads
    · rintro message ⟨rfl⟩
      rcases perform_cases s options (.dispatch message) with
        ⟨e, -, hp⟩ | ⟨config, store, hopens, hp⟩
      · exact .inl (by rw [hfiles, hp])
      · rw [hp] at hfiles hstdout hending
        rcases dispatch_keeps_or_writes hopens.filesOf message with h | ⟨hnew, houtcome, hprinted⟩
        · exact .inl (hfiles.trans h)
        · refine .inr ⟨hnew, ?_, hstdout.trans hprinted⟩
          rw [carryOut, houtcome] at hending
          exact hending

def rawName : Text := [CodePoint.ofNat 0xDCFF]

/-- The script is written and the run breaks down all the same. -/
theorem raw_name_breaks_after_writing :
    let r := run (workshop ("2" : Text).utf8) ["save", rawName, "-"]
    let l : Location := [("work" : Text).utf8, ("scripts" : Text).utf8, [0xFF]]
    r.ending = .broken (.unencodable ⟨CodePoint.ofNat 0xDCFF, 8, 9⟩) ∧
      (workshop ("2" : Text).utf8).files.node? l = none ∧
      r.files.node? l = some (.file ("2" : Text).utf8) := by
  refine ⟨by decide +kernel, by decide +kernel, by decide +kernel⟩

end Console

end ScriptDepot
