import ScriptDepot.Proofs.Console.Ending
/-!
# Flags before variables before defaults

Each setting is the flag where one is given, or else what its variable says, or else a default.  The
configuration is that of these settings whenever they are in range, as long as the environment would
do without any flags.  An environment that would not do is refused first, whatever the flags say,
even where its bad values are those that the flags replace.
-/

namespace ScriptDepot

/-! ## The value of one setting -/

namespace Setting

/-- What a setting comes to, if it can be read. -/
def effective {α : Type} (flag : Option α) (value : Option Text) (read : Text → Option α)
    (default : α) : Option α :=
  match flag, value with
  | some a, _ => some a
  | none, some t => read t
  | none, none => some default

variable {α : Type} {flag : Option α} {value other : Option Text} {read : Text → Option α}
variable {default a : α}

theorem effective_getD (h : effective none value read default = some a) (flag : Option α) :
    effective flag value read default = some (flag.getD a) := by
  cases flag with
  | none => exact h
  | some b => rfl

theorem effective_congr (h : flag = none → other = value) :
    effective flag other read default = effective flag value read default := by
  cases flag with
  | none => rw [h rfl]
  | some b => rfl

def readText (t : Text) : Option (Given Text) := some (.value t)

def readInteger (t : Text) : Option (Given Int) := t.integer?.map .value

def readSwitch (t : Text) : Option Bool := some t.isOn

end Setting

open Setting

namespace Environment

variable (env : Environment) (name : Text)

theorem effective_text (default : Given Text) :
    effective none (env.value? name) readText default = some (env.text name default) := by
  unfold text
  cases env.value? name <;> rfl

theorem effective_isOn :
    effective none (env.value? name) readSwitch false =
      some ((env.value? name).getD []).isOn := by
  cases env.value? name <;> rfl

theorem effective_integer (default : Given Int) :
    (∃ n, effective none (env.value? name) readInteger default = some n ∧
      env.integer name default = .ok n) ∨
    effective none (env.value? name) readInteger default = none ∧
      ∃ fault, env.integer name default = .error (.refusal (.config fault)) := by
  unfold integer
  cases env.value? name with
  | none => exact .inl ⟨default, rfl, rfl⟩
  | some value =>
    cases hread : value.integer? with
    | some n => exact .inl ⟨.value n, by simp [effective, readInteger, hread], by simp [hread]⟩
    | none =>
      exact .inr ⟨by simp [effective, readInteger, hread], .notInteger name value, by simp [hread]⟩

end Environment

/-! ## All settings -/

namespace Settings

structure IsEffective (env : Environment) (o : Overrides) (s : Settings) : Prop where
  scriptsDir : effective o.scriptsDir (env.value? "SCRIPT_SERVER_DIR") readText
    (.value "scripts") = some s.scriptsDir
  maxScripts : effective o.maxScripts (env.value? "SCRIPT_SERVER_MAX_SCRIPTS") readInteger
    (.value 500) = some s.maxScripts
  host : effective o.host (env.value? "SCRIPT_SERVER_HOST") readText
    (.value "127.0.0.1") = some s.host
  port : effective o.port (env.value? "SCRIPT_SERVER_PORT") readInteger
    (.value 8765) = some s.port
  serializeSaves : effective o.serializeSaves (env.value? "SCRIPT_SERVER_SERIALIZE_SAVES")
    readSwitch false = some s.serializeSaves

structure InRange (s : Settings) : Prop where
  maxScripts : ∃ n : Int, s.maxScripts = .value n ∧ 0 ≤ n
  port : ∃ n : Int, s.port = .value n ∧ 0 ≤ n ∧ n ≤ 65535

variable {s : Settings} {env other : Environment} {o : Overrides}

theorem IsEffective.apply (h : s.IsEffective env {}) (o : Overrides) :
    (o.apply s).IsEffective env o where
  scriptsDir := effective_getD h.scriptsDir _
  maxScripts := effective_getD h.maxScripts _
  host := effective_getD h.host _
  port := effective_getD h.port _
  serializeSaves := effective_getD h.serializeSaves _

theorem IsEffective.unique {t : Settings} (hs : s.IsEffective env o) (ht : t.IsEffective env o) :
    s = t := by
  have hdir := hs.scriptsDir.symm.trans ht.scriptsDir
  have hmax := hs.maxScripts.symm.trans ht.maxScripts
  have hhost := hs.host.symm.trans ht.host
  have hport := hs.port.symm.trans ht.port
  have hserialize := hs.serializeSaves.symm.trans ht.serializeSaves
  cases s
  cases t
  simp_all

/-- Settings in range are those of a configuration, and the others are refused, unless a number is
not there at all. -/
theorem check_cases (s : Settings) :
    (s.InRange ∧ ∃ config, s.check = .ok config ∧ config.settings = s) ∨
    ¬ s.InRange ∧ ((∃ fault, s.check = .error (.refusal (.config fault))) ∨
      (s.maxScripts = .nothing ∨ s.port = .nothing) ∧
        ∃ what, s.check = .error (.breakdown (.withheld what))) := by
  obtain ⟨scriptsDir, maxScripts, host, port, serializeSaves⟩ := s
  cases maxScripts with
  | nothing =>
    refine .inr ⟨?_, .inr ⟨.inl rfl, .maxScripts, rfl⟩⟩
    rintro ⟨⟨n, h, -⟩, -⟩
    cases h
  | value max =>
    by_cases hmax : max < 0
    · refine .inr ⟨?_, .inl ⟨.negativeMax, by simp [check, hmax]⟩⟩
      rintro ⟨⟨n, ⟨rfl⟩, hn⟩, -⟩
      omega
    · cases port with
      | nothing =>
        refine .inr ⟨?_, .inr ⟨.inr rfl, .port, by simp [check, hmax]⟩⟩
        rintro ⟨-, ⟨n, h, -⟩⟩
        cases h
      | value port =>
        by_cases hport : 0 ≤ port ∧ port ≤ maxPort
        · have hrange : InRange ⟨scriptsDir, .value max, host, .value port, serializeSaves⟩ :=
            ⟨⟨max, rfl, by omega⟩, ⟨port, rfl, hport⟩⟩
          have hnonneg : 0 ≤ max := Int.not_lt.mp hmax
          refine .inl ⟨hrange, _, by simp [check, hmax, hport]; rfl, ?_⟩
          simp [Config.settings, Int.toNat_of_nonneg hport.1, Int.toNat_of_nonneg hnonneg]
        · refine .inr ⟨?_, .inl ⟨.portOutOfRange port, by simp [check, hmax, hport]⟩⟩
          rintro ⟨-, ⟨n, ⟨rfl⟩, hn⟩⟩
          exact hport hn

theorem InRange.withheld (h : s.InRange)
    (hnothing : (o.apply s).maxScripts = .nothing ∨ (o.apply s).port = .nothing) :
    o.maxScripts = some .nothing ∨ o.port = some .nothing := by
  obtain ⟨⟨max, hmax, -⟩, ⟨port, hport, -⟩⟩ := h
  simp only [Overrides.apply, hmax, hport, Option.getD_eq_iff] at hnothing
  simpa using hnothing

end Settings

def Environment.IsValid (env : Environment) : Prop :=
  ∃ s : Settings, s.IsEffective env {} ∧ s.InRange

/-- The variables that no flag takes the place of. -/
def Overrides.exposed (o : Overrides) : List Text :=
  (Config.variableNames.zip [o.scriptsDir.isNone, o.maxScripts.isNone, o.host.isNone,
    o.port.isNone, o.serializeSaves.isNone]).filterMap fun (name, exposed) =>
      if exposed then some name else none

theorem Settings.IsEffective.congr {s : Settings} {env other : Environment} {o : Overrides}
    (h : s.IsEffective env o) (hsame : ∀ name ∈ o.exposed, other.value? name = env.value? name) :
    s.IsEffective other o := by
  refine ⟨(effective_congr ?_).trans h.scriptsDir, (effective_congr ?_).trans h.maxScripts,
    (effective_congr ?_).trans h.host, (effective_congr ?_).trans h.port,
    (effective_congr ?_).trans h.serializeSaves⟩
  all_goals
    intro hflag
    exact hsame _ (by simp [Overrides.exposed, Config.variableNames, hflag])

namespace Config

variable {env : Environment}

theorem ofEnvironment_cases (env : Environment) :
    (∃ s : Settings, s.IsEffective env {} ∧ ofEnvironment env = s.check) ∨
    (∀ s : Settings, ¬ s.IsEffective env {}) ∧
      ∃ fault, ofEnvironment env = .error (.refusal (.config fault)) := by
  unfold ofEnvironment
  rcases env.effective_integer "SCRIPT_SERVER_MAX_SCRIPTS" (.value 500) with
    ⟨max, hmax, hread⟩ | ⟨hmax, fault, hread⟩
  · rcases env.effective_integer "SCRIPT_SERVER_PORT" (.value 8765) with
      ⟨port, hport, hread'⟩ | ⟨hport, fault, hread'⟩
    · refine .inl ⟨⟨_, max, _, port, _⟩, ?_, by simp [hread, hread', bind, Except.bind]; rfl⟩
      exact ⟨env.effective_text _ _, hmax, env.effective_text _ _, hport, env.effective_isOn _⟩
    · refine .inr ⟨?_, fault, by simp [hread, hread', bind, Except.bind]⟩
      intro s hs
      cases hport.symm.trans hs.port
  · refine .inr ⟨?_, fault, by simp [hread, bind, Except.bind]⟩
    intro s hs
    cases hmax.symm.trans hs.maxScripts

theorem resolve_of_inRange {s : Settings} (hs : s.IsEffective env {}) (hrange : s.InRange)
    (o : Overrides) : resolve env o = (o.apply s).check := by
  rcases ofEnvironment_cases env with ⟨t, ht, henv⟩ | ⟨hnone, -⟩
  · obtain rfl : t = s := ht.unique hs
    rcases t.check_cases with ⟨-, config, hcheck, hsettings⟩ | ⟨hout, -⟩
    · rw [hcheck] at henv
      simp [resolve, henv, hsettings, bind, Except.bind]
    · exact absurd hrange hout
  · exact absurd hs (hnone s)

theorem resolve_of_not_valid (h : ¬ env.IsValid) :
    ∃ fault, ∀ o, resolve env o = .error (.refusal (.config fault)) := by
  obtain ⟨fault, henv⟩ : ∃ fault, ofEnvironment env = .error (.refusal (.config fault)) := by
    rcases ofEnvironment_cases env with ⟨s, hs, henv⟩ | ⟨-, hfault⟩
    · rw [henv]
      rcases s.check_cases with ⟨hrange, -⟩ | ⟨-, hfault | ⟨-, what, hbreaks⟩⟩
      · exact absurd ⟨s, hs, hrange⟩ h
      · exact hfault
      · exact absurd (henv.trans hbreaks) (ofEnvironment_ne_breakdown env _)
    · exact hfault
  exact ⟨fault, fun o => by simp [resolve, henv, bind, Except.bind]⟩

/-- Over an environment that would do without flags, each flag replaces its variable and each
variable its default; what a flag replaces has no influence.  An environment that would not do is
refused with the same fault whatever the flags are. -/
theorem flags_precede_valid_environment (env : Environment) :
    (env.IsValid → ∀ o : Overrides, ∃ s : Settings, s.IsEffective env o ∧
      (s.InRange → ∃ config, resolve env o = .ok config ∧ config.settings = s) ∧
      (¬ s.InRange → (∃ fault, resolve env o = .error (.refusal (.config fault))) ∨
        (o.maxScripts = some .nothing ∨ o.port = some .nothing) ∧
          ∃ what, resolve env o = .error (.breakdown (.withheld what))) ∧
      ∀ other : Environment, other.IsValid →
        (∀ name ∈ o.exposed, other.value? name = env.value? name) →
        resolve other o = resolve env o) ∧
    (¬ env.IsValid → ∃ fault, ∀ o, resolve env o = .error (.refusal (.config fault))) := by
  refine ⟨?_, resolve_of_not_valid⟩
  rintro ⟨own, hown, hrange⟩ o
  have hresolve := resolve_of_inRange hown hrange o
  have heffective := hown.apply o
  refine ⟨o.apply own, heffective, ?_, ?_, ?_⟩
  · intro hinRange
    rcases (o.apply own).check_cases with ⟨-, hconfig⟩ | ⟨hout, -⟩
    · rw [hresolve]
      exact hconfig
    · exact absurd hinRange hout
  · intro hout
    rw [hresolve]
    rcases (o.apply own).check_cases with ⟨hinRange, -⟩ | ⟨-, hfault | ⟨hnothing, hbreaks⟩⟩
    · exact absurd hinRange hout
    · exact .inl hfault
    · exact .inr ⟨hrange.withheld hnothing, hbreaks⟩
  · rintro other ⟨theirs, htheirs, hother⟩ hsame
    rw [hresolve, resolve_of_inRange htheirs hother o]
    rw [(htheirs.apply o).unique (heffective.congr hsame)]

def twoSet : Environment := [("SCRIPT_SERVER_PORT", "1"), ("SCRIPT_SERVER_MAX_SCRIPTS", " +7 ")]

theorem flags_precede_valid_environment_twoSet :
    let o : Overrides := { port := some (.value 80) }
    twoSet.IsValid ∧
      (∃ config, resolve twoSet o = .ok config ∧
        config.settings = { maxScripts := .value 7, port := .value 80 }) ∧
      resolve [("SCRIPT_SERVER_MAX_SCRIPTS", " +7 ")] o = resolve twoSet o := by
  intro o
  have hvalid : twoSet.IsValid := by
    refine ⟨{ maxScripts := .value 7, port := .value 1 }, ⟨?_, ?_, ?_, ?_, ?_⟩,
      ⟨7, rfl, by decide⟩, ⟨1, rfl, by decide⟩⟩ <;> decide +kernel
  have hother : Environment.IsValid [("SCRIPT_SERVER_MAX_SCRIPTS", " +7 ")] := by
    refine ⟨{ maxScripts := .value 7 }, ⟨?_, ?_, ?_, ?_, ?_⟩,
      ⟨7, rfl, by decide⟩, ⟨8765, rfl, by decide⟩⟩ <;> decide +kernel
  obtain ⟨s, hs, hok, -, hsame⟩ := (flags_precede_valid_environment twoSet).1 hvalid o
  have hsettings : s = { maxScripts := .value 7, port := .value 80 } := by
    refine hs.unique ⟨?_, ?_, ?_, ?_, ?_⟩ <;> decide +kernel
  subst hsettings
  refine ⟨hvalid, hok ⟨⟨7, rfl, by decide⟩, ⟨80, rfl, by decide⟩⟩, hsame _ hother ?_⟩
  decide +kernel

def badPort : Environment := [("SCRIPT_SERVER_PORT", "x")]

/-- The port that counts is the flag, and yet the one below it decides. -/
theorem replaced_port_is_refused :
    let o : Overrides := { port := some (.value 80) }
    let s : Settings := { port := .value 80 }
    CommandLine.parse ["serve", "--port=80"] = .ok ⟨{ overrides := o }, some .serve⟩ ∧
      s.IsEffective badPort o ∧ s.InRange ∧
      resolve badPort o =
        .error (.refusal (.config (.notInteger "SCRIPT_SERVER_PORT" "x"))) := by
  intro o s
  refine ⟨rfl, ⟨rfl, rfl, rfl, rfl, rfl⟩, ?_, by decide +kernel⟩
  exact ⟨⟨500, rfl, by decide⟩, ⟨80, rfl, by decide⟩⟩

end Config

end ScriptDepot
