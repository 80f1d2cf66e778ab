import ScriptDepot.CommandLine.Invocation
import ScriptDepot.Proofs.CommandLine.Options
import ScriptDepot.Proofs.Json.Numeral
/-!
# Requests put into words

Every request can be written as a command line: options in front, the subcommand, and what belongs
to it.  Reading such a line gives back exactly what was written.  An option that stands there more
than once has its last value, so only the order among options of one kind matters.
-/

namespace ScriptDepot

/-! ## Integers -/

namespace Text

open Json.Grammar

theorem digit?_of_isDigit {c : CodePoint} (h : IsDigit c) : c.digit? = some (c.val - 0x30) := by
  obtain ⟨hlow, hhigh⟩ := h
  rw [CodePoint.digit?, if_pos (by omega), if_pos ⟨hlow, hhigh⟩]

theorem digits?_of_digits {t : Text} (h : Digits t) :
    digits? t = some (t.map fun c => c.val - 0x30) := by
  obtain ⟨hne, hall⟩ := h
  induction t with
  | nil => exact absurd rfl hne
  | cons c rest ih =>
    rw [List.forall_mem_cons] at hall
    cases rest with
    | nil => simp [digits?, digit?_of_isDigit hall.1]
    | cons d tail =>
      have hd := hall.2 d List.mem_cons_self
      have hunderscore : d ≠ ('_' : CodePoint) := by
        rintro rfl
        exact absurd hd.2 (by decide)
      rw [digits?, digit?_of_isDigit hall.1]
      simp only [if_neg hunderscore, ih (by simp) hall.2, Option.map_some, List.map_cons]

theorem natural?_of_digits {t : Text} (h : Digits t) (hshort : t.length ≤ maxDigits) :
    natural? t = some (number t) := by
  rw [natural?, digits?_of_digits h]
  simp only [List.length_map]
  rw [if_neg (by omega), List.foldl_map]
  rfl

theorem trim_of_all {p : CodePoint → Bool} {t : Text} (h : ∀ c ∈ t, p c = false) :
    t.trim p = t := by
  have hdrop : ∀ {s : Text}, (∀ c ∈ s, p c = false) → s.dropWhile p = s := by
    intro s hs
    cases s with
    | nil => rfl
    | cons c rest => exact List.dropWhile_cons_of_neg (by simp [hs c List.mem_cons_self])
  rw [trim, hdrop h, hdrop (by simpa using h), List.reverse_reverse]

theorem not_isMargin {c : CodePoint} (hlow : 0x20 < c.val) (hhigh : c.val < 0x80) :
    c.isMargin = false := by
  have hblank : c.isBlank = false := by
    simp only [CodePoint.isBlank, Bool.or_eq_false_iff, Bool.and_eq_false_iff,
      decide_eq_false_iff_not]
    omega
  rw [CodePoint.isMargin, hblank, Bool.false_and]

theorem integer?_ofInt {n : Int} (hshort : (ofNat n.natAbs).length ≤ maxDigits) :
    (ofInt n).integer? = some n := by
  have hdigit : ∀ {m : Nat}, ∀ c ∈ ofNat m, c.isMargin = false := by
    intro m c hc
    have hc := isDigit_of_mem_ofNat hc
    obtain ⟨hlow, hhigh⟩ := hc
    exact not_isMargin (by omega) (by omega)
  cases n with
  | ofNat n =>
    have hnatural := natural?_of_digits (digits_ofNat n) hshort
    rw [number_ofNat] at hnatural
    rw [ofInt, integer?, trim_of_all hdigit]
    cases htext : ofNat n with
    | nil => exact absurd htext (digits_ofNat n).nonempty
    | cons c rest =>
      have hc : IsDigit c := isDigit_of_mem_ofNat (htext ▸ List.mem_cons_self)
      have hminus : c ≠ ('-' : CodePoint) := by
        rintro rfl
        exact absurd hc.1 (by decide)
      have hplus : c ≠ ('+' : CodePoint) := by
        rintro rfl
        exact absurd hc.1 (by decide)
      rw [htext] at hnatural
      simp only [if_neg hminus, if_neg hplus, hnatural, Option.map_some, Int.ofNat_eq_natCast]
  | negSucc n =>
    have hnatural := natural?_of_digits (digits_ofNat (n + 1)) hshort
    rw [number_ofNat] at hnatural
    have hall : ∀ c ∈ (('-' : CodePoint) :: ofNat (n + 1)), c.isMargin = false :=
      List.forall_mem_cons.mpr ⟨by decide, hdigit⟩
    rw [ofInt, integer?, trim_of_all hall]
    simp only [if_true, hnatural, Option.map_some]
    rfl

end Text

namespace CommandLine

/-! ## What can be written -/

/-- A text that is not taken for an option. -/
structure Word where
  text : Text
  plain : text.head? ≠ some dash
deriving DecidableEq

structure Numeral where
  value : Int
  short : (Text.ofNat value.natAbs).length ≤ Text.maxDigits
deriving DecidableEq

inductive Source where
  | stdin
  | file (path : Word)
deriving DecidableEq

def Source.text : Source → Text
  | .stdin => [dash]
  | .file path => path.text

inductive FrontOption where
  | dir (folder : Word)
  | max (n : Numeral)
  | debug
deriving DecidableEq

inductive ServeOption where
  | host (address : Word)
  | port (n : Numeral)
  | serializeSaves
deriving DecidableEq

inductive Call where
  | serve (options : List ServeOption)
  | list
  | get (name : Word)
  | save (name : Word) (source : Source)
  | dispatch (message : Word)

namespace Word

theorem given_text (w : Word) : given w.text = .value w.text := if_neg (ne_doubleDash w.plain)

end Word

namespace Numeral

def text (n : Numeral) : Text := Text.ofInt n.value

theorem given_text (n : Numeral) : given n.text = .value n.text := by
  have hne : n.text ≠ doubleDash := by
    intro h
    have hread := Text.integer?_ofInt n.short
    rw [show Text.ofInt n.value = doubleDash from h] at hread
    cases hread
  exact if_neg hne

theorem integerValue_given (f : Flag Key) (n : Numeral) :
    integerValue f (given n.text) = .ok (.value n.value) := by
  rw [given_text, integerValue, text, Text.integer?_ofInt n.short]

end Numeral

/-! ## Options -/

namespace FrontOption

def written : FrontOption → Written
  | .dir folder => ⟨"--dir", some folder.text⟩
  | .max n => ⟨"--max", some n.text⟩
  | .debug => ⟨"--debug", none⟩

def flag : FrontOption → Flag Key
  | .dir _ => ⟨.dir, ["--dir"], true⟩
  | .max _ => ⟨.max, ["--max"], true⟩
  | .debug => ⟨.debug, ["--debug"], false⟩

def apply (option : FrontOption) (s : Options) : Options :=
  match option with
  | .dir folder =>
    { s with overrides := { s.overrides with scriptsDir := some (.value folder.text) } }
  | .max n => { s with overrides := { s.overrides with maxScripts := some (.value n.value) } }
  | .debug => { s with debug := true }

def vocabulary : Vocabulary globalFlags effect FrontOption where
  written := written
  flag := flag
  apply := apply
  isLong option := by cases option <;> exact ⟨⟨_, _, rfl⟩, by dsimp only [written]; decide⟩
  named option := by cases option <;> rfl
  takesValue option := by cases option <;> rfl
  effect_eq option s := by
    cases option with
    | dir folder => simp [effect, flag, written, Written.given, apply, folder.given_text]
    | max n => simp [effect, flag, written, Written.given, apply, n.integerValue_given]
    | debug => rfl
  unequal := by decide

def kind (option : FrontOption) : Key := option.flag.key

def folder? : FrontOption → Option Text
  | .dir folder => some folder.text
  | _ => none

def cap? : FrontOption → Option Int
  | .max n => some n.value
  | _ => none

end FrontOption

namespace ServeOption

def written : ServeOption → Written
  | .host address => ⟨"--host", some address.text⟩
  | .port n => ⟨"--port", some n.text⟩
  | .serializeSaves => ⟨"--serialize-saves", none⟩

def flag : ServeOption → Flag Key
  | .host _ => ⟨.host, ["--host"], true⟩
  | .port _ => ⟨.port, ["--port"], true⟩
  | .serializeSaves => ⟨.serializeSaves, ["--serialize-saves"], false⟩

def apply (option : ServeOption) (s : Options) : Options :=
  match option with
  | .host address => { s with overrides := { s.overrides with host := some (.value address.text) } }
  | .port n => { s with overrides := { s.overrides with port := some (.value n.value) } }
  | .serializeSaves => { s with overrides := { s.overrides with serializeSaves := some true } }

def vocabulary : Vocabulary Subcommand.serve.flags effect ServeOption where
  written := written
  flag := flag
  apply := apply
  isLong option := by cases option <;> exact ⟨⟨_, _, rfl⟩, by dsimp only [written]; decide⟩
  named option := by cases option <;> rfl
  takesValue option := by cases option <;> rfl
  effect_eq option s := by
    cases option with
    | host address => simp [effect, flag, written, Written.given, apply, address.given_text]
    | port n => simp [effect, flag, written, Written.given, apply, n.integerValue_given]
    | serializeSaves => rfl
  unequal := by decide

def kind (option : ServeOption) : Key := option.flag.key

def address? : ServeOption → Option Text
  | .host address => some address.text
  | _ => none

def port? : ServeOption → Option Int
  | .port n => some n.value
  | _ => none

theorem exists_classify_front (option : ServeOption) :
    ∃ kind, classify globalFlags option.written.token = .ok kind := by
  apply Written.exists_classify_token (vocabulary.isLong option)
  cases option <;> dsimp only [vocabulary, written] <;> decide

end ServeOption

def last {α β : Type} (value? : α → Option β) (options : List α) : Option (Given β) :=
  (options.filterMap value?).getLast?.map .value

theorem last_cons {α β : Type} (value? : α → Option β) (a : α) (options : List α) :
    last value? (a :: options) = (last value? options).or ((value? a).map .value) := by
  unfold last
  cases h : value? a with
  | none => simp [h]
  | some b =>
    rw [List.filterMap_cons_some h, List.getLast?_cons]
    cases (options.filterMap value?).getLast? <;> rfl

theorem FrontOption.applyAll_eq (options : List FrontOption) (s : Options) :
    vocabulary.applyAll options s =
      { overrides :=
          { s.overrides with
            scriptsDir := (last folder? options).or s.overrides.scriptsDir
            maxScripts := (last cap? options).or s.overrides.maxScripts }
        debug := decide (.debug ∈ options) || s.debug } := by
  induction options generalizing s with
  | nil => rfl
  | cons option options ih =>
    show vocabulary.applyAll options (apply option s) = _
    rw [ih]
    cases option <;> simp [last_cons, folder?, cap?, apply]

theorem ServeOption.applyAll_eq (options : List ServeOption) (s : Options) :
    vocabulary.applyAll options s =
      { s with
        overrides :=
          { s.overrides with
            host := (last address? options).or s.overrides.host
            port := (last port? options).or s.overrides.port
            serializeSaves :=
              if .serializeSaves ∈ options then some true else s.overrides.serializeSaves } } := by
  induction options generalizing s with
  | nil => rfl
  | cons option options ih =>
    show vocabulary.applyAll options (apply option s) = _
    rw [ih]
    cases option <;> simp [last_cons, address?, port?, apply]

/-! ## Command lines -/

namespace Call

def request : Call → Request
  | .serve _ => .serve
  | .list => .list
  | .get name => .get name.text
  | .save name source => .save name.text (.value source.text)
  | .dispatch message => .dispatch message.text

def options : Call → List ServeOption
  | .serve options => options
  | _ => []

def arguments : Call → List Text
  | .serve options => options.map (·.written.token)
  | .list => []
  | .get name => [name.text]
  | .save name source => [name.text, source.text]
  | .dispatch message => [message.text]

end Call

/-- A request put into words. -/
structure Wording where
  front : List FrontOption
  call : Call

namespace Wording

def texts (w : Wording) : List Text :=
  w.front.map (·.written.token) ++ w.call.request.subcommand.name :: w.call.arguments

/-- What the options ask for: each has the value with which it is written last. -/
def options (w : Wording) : Options where
  overrides :=
    { scriptsDir := last FrontOption.folder? w.front
      maxScripts := last FrontOption.cap? w.front
      host := last ServeOption.address? w.call.options
      port := last ServeOption.port? w.call.options
      serializeSaves := if .serializeSaves ∈ w.call.options then some true else none }
  debug := decide (.debug ∈ w.front)

end Wording

theorem Source.scan_text (flags : List (Flag Key)) (hdash : classify flags [dash] = .ok .word)
    (source : Source) : scan flags [source.text] = .ok ⟨[⟨source.text, .word⟩], none⟩ := by
  cases source with
  | stdin =>
    rw [Source.text, scan_cons (by decide) hdash]
    rfl
  | file path =>
    rw [Source.text, scan_word path.plain]
    rfl

namespace Call

/-- The arguments of a subcommand are passed on to it unread. -/
theorem exists_scan_front (call : Call) :
    ∃ front, scan globalFlags (call.request.subcommand.name :: call.arguments) =
        .ok ⟨⟨call.request.subcommand.name, .word⟩ :: front, none⟩ ∧
      front.map (·.text) = call.arguments := by
  have hname : call.request.subcommand.name.head? ≠ some dash := by
    cases call <;> dsimp only [request, Request.subcommand] <;> decide
  have hword : ∀ w : Word, w.text ≠ doubleDash ∧ ∃ kind, classify globalFlags w.text = .ok kind :=
    fun w => ⟨ne_doubleDash w.plain, _, classify_word w.plain⟩
  have harguments : ∀ t ∈ call.arguments, t ≠ doubleDash ∧
      ∃ kind, classify globalFlags t = .ok kind := by
    cases call with
    | serve options =>
      simp only [arguments, List.forall_mem_map]
      exact fun option _ =>
        ⟨(ServeOption.vocabulary.isLong option).token_ne, option.exists_classify_front⟩
    | list => simp [arguments]
    | get name => simpa [arguments] using hword name
    | save name source =>
      have hsource : source.text ≠ doubleDash ∧
          ∃ kind, classify globalFlags source.text = .ok kind := by
        cases source with
        | stdin => exact ⟨by decide, _, rfl⟩
        | file path => exact hword path
      simpa [arguments] using ⟨hword name, hsource⟩
    | dispatch message => simpa [arguments] using hword message
  obtain ⟨front, hfront, htexts⟩ := exists_scan harguments
  refine ⟨front, ?_, htexts⟩
  rw [scan_word hname, hfront]
  rfl

theorem parseArguments_arguments (call : Call) (s : Options) :
    parseArguments call.request.subcommand s call.arguments =
      .ok (ServeOption.vocabulary.applyAll call.options s, call.request, []) := by
  cases call with
  | serve options =>
    have hscan : scan Subcommand.serve.flags (options.map (·.written.token)) =
        .ok ⟨options.map ServeOption.vocabulary.found, none⟩ := by
      have h := ServeOption.vocabulary.scan_texts options []
      rw [List.append_nil] at h
      rw [show options.map (·.written.token) = ServeOption.vocabulary.texts options from rfl, h]
      simp [scan, Except.map]
    have hread := ServeOption.vocabulary.readArguments_found 0 .open options s
    show parseArguments .serve s (options.map (·.written.token)) = _
    unfold parseArguments
    rw [hscan]
    dsimp only [Subcommand.places, List.length_nil]
    rw [hread]
    rfl
  | list => rfl
  | get name =>
    show parseArguments .get s [name.text] = _
    unfold parseArguments
    rw [scan_word name.plain]
    rfl
  | save name source =>
    show parseArguments .save s [name.text, source.text] = _
    unfold parseArguments
    rw [scan_word name.plain, source.scan_text _ rfl]
    rfl
  | dispatch message =>
    show parseArguments .dispatch s [message.text] = _
    unfold parseArguments
    rw [scan_word message.plain]
    rfl

end Call

namespace Wording

theorem parse_texts (w : Wording) : parse w.texts = .ok ⟨w.options, some w.call.request⟩ := by
  obtain ⟨front, hscan, hfront⟩ := w.call.exists_scan_front
  have hall : scan globalFlags w.texts =
      .ok ⟨w.front.map FrontOption.vocabulary.found ++
        ⟨w.call.request.subcommand.name, .word⟩ :: front, none⟩ := by
    have h := FrontOption.vocabulary.scan_texts w.front
      (w.call.request.subcommand.name :: w.call.arguments)
    rw [hscan] at h
    exact h
  have hheading : readHeading globalFlags effect none
      (w.front.map FrontOption.vocabulary.found ++
        ⟨w.call.request.subcommand.name, .word⟩ :: front) {} =
      .ok ⟨FrontOption.vocabulary.applyAll w.front {},
        some (w.call.request.subcommand.name, w.call.arguments), []⟩ := by
    rw [FrontOption.vocabulary.readHeading_found, readHeading, hfront]
    simp [backTexts]
  have hname : Subcommand.ofName? w.call.request.subcommand.name =
      some w.call.request.subcommand := by
    cases w.call <;> rfl
  have hoptions : ServeOption.vocabulary.applyAll w.call.options
      (FrontOption.vocabulary.applyAll w.front {}) = w.options := by
    rw [FrontOption.applyAll_eq, ServeOption.applyAll_eq]
    simp [options]
  unfold parse
  rw [hall]
  dsimp only
  rw [hheading]
  dsimp only
  rw [hname]
  dsimp only
  rw [w.call.parseArguments_arguments, hoptions]
  rfl

end Wording

/-! ## The order of options -/

/-- The two lists differ at most in how things of different kinds are ordered. -/
def SameByKind {α : Type} (kind : α → Key) (options others : List α) : Prop :=
  ∀ k, options.filter (kind · = k) = others.filter (kind · = k)

namespace SameByKind

variable {α β : Type} {kind : α → Key} {options others : List α}

theorem last_eq (h : SameByKind kind options others) (value? : α → Option β) (k : Key)
    (hkind : ∀ a b, value? a = some b → kind a = k) :
    last value? options = last value? others := by
  have hfilter : ∀ l : List α, (l.filter (kind · = k)).filterMap value? = l.filterMap value? := by
    intro l
    rw [List.filterMap_filter]
    congr 1
    funext a
    cases hvalue : value? a with
    | none => simp
    | some b => simp [hkind a b hvalue]
  rw [last, last, ← hfilter options, ← hfilter others, h k]

theorem mem_iff (h : SameByKind kind options others) (a : α) : a ∈ options ↔ a ∈ others := by
  have hfilter : ∀ l : List α, a ∈ l ↔ a ∈ l.filter (kind · = kind a) := by simp
  rw [hfilter options, hfilter others, h (kind a)]

end SameByKind

namespace Wording

theorem options_congr {w other : Wording}
    (hfront : SameByKind FrontOption.kind w.front other.front)
    (hserve : SameByKind ServeOption.kind w.call.options other.call.options) :
    w.options = other.options := by
  have hfolder := hfront.last_eq FrontOption.folder? .dir
    (by rintro (_ | _ | _) value ⟨⟩; rfl)
  have hcap := hfront.last_eq FrontOption.cap? .max
    (by rintro (_ | _ | _) value ⟨⟩; rfl)
  have haddress := hserve.last_eq ServeOption.address? .host
    (by rintro (_ | _ | _) value ⟨⟩; rfl)
  have hport := hserve.last_eq ServeOption.port? .port
    (by rintro (_ | _ | _) value ⟨⟩; rfl)
  simp only [options, hfolder, hcap, haddress, hport, hfront.mem_iff, hserve.mem_iff]

/-- A request put into words is understood as it was meant: the options have the values with which
they are written last, and the arguments are what was written.  The order of options of different
kinds makes no difference. -/
theorem parse_undoes_wording (w : Wording) :
    parse w.texts = .ok ⟨w.options, some w.call.request⟩ ∧
      ∀ other : Wording, SameByKind FrontOption.kind w.front other.front →
        SameByKind ServeOption.kind w.call.options other.call.options →
        w.call.request = other.call.request → parse other.texts = parse w.texts := by
  refine ⟨w.parse_texts, ?_⟩
  intro other hfront hserve hrequest
  rw [other.parse_texts, w.parse_texts, options_congr hfront hserve, hrequest]

def repeated : Wording where
  front := [.dir ⟨"a", by decide⟩, .debug, .max ⟨-5, by decide⟩, .dir ⟨"b c", by decide⟩]
  call := .serve [.port ⟨1, by decide⟩, .host ⟨"x=y", by decide⟩, .port ⟨80, by decide⟩,
    .serializeSaves]

def reordered : Wording where
  front := [.max ⟨-5, by decide⟩, .dir ⟨"a", by decide⟩, .dir ⟨"b c", by decide⟩, .debug]
  call := .serve [.serializeSaves, .port ⟨1, by decide⟩, .port ⟨80, by decide⟩,
    .host ⟨"x=y", by decide⟩]

theorem parse_undoes_wording_repeated :
    parse ["--dir=a", "--debug", "--max=-5", "--dir=b c", "serve", "--port=1", "--host=x=y",
        "--port=80", "--serialize-saves"] =
      .ok ⟨⟨⟨some (.value "b c"), some (.value (-5)), some (.value "x=y"), some (.value 80),
        some true⟩, true⟩, some .serve⟩ ∧
    parse reordered.texts = parse repeated.texts := by
  have hlaw := parse_undoes_wording repeated
  exact ⟨hlaw.1, hlaw.2 reordered (by intro k; cases k <;> rfl) (by intro k; cases k <;> rfl) rfl⟩

end Wording

end CommandLine

end ScriptDepot
