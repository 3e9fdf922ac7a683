import LogSpool.Proofs.Environment.Reading
import LogSpool.Proofs.Text.Blank
import LogSpool.Proofs.Text.Decoding
import LogSpool.Settings
set_option autoImplicit false

/-!
# Environment: settings

Each setting follows one variable.  `Given` says which value a variable gives for a kind of texts,
and a setting that follows a variable is that value, or the default where there is none; so two
environments with the same bytes in the variable agree on the setting, and a variable that gives
nothing can as well be unset.  For a backend only the console setting is looked at again.
-/

namespace LogSpool

namespace Environment

variable {α : Type} {Reads : List Char → α → Prop} {reader : List Char → Option α} {key : String}
  {env other : Environment} {a : α}

/-- The variable is set to a text that, without the blanks around it, stands for the value. -/
def Given (Reads : List Char → α → Prop) (env : Environment) (key : String) (a : α) : Prop :=
  ∃ s core, env.bytes? key = some (utf8 s) ∧ Text.TrimsTo s.toList core ∧ Reads core a

theorem text?_eq_some_iff {s : String} : env.text? key = some s ↔ env.bytes? key = some (utf8 s) := by
  unfold text?
  rw [Option.bind_eq_some_iff]
  constructor
  · rintro ⟨bytes, hbytes, htext⟩
    rw [hbytes, ofUtf8?_eq_some_iff.mp htext]
  · exact fun h => ⟨utf8 s, h, ofUtf8?_eq_some_iff.mpr rfl⟩

theorem read?_eq_some_iff (hreader : ∀ text a, reader text = some a ↔ Reads text a) :
    env.read? reader key = some a ↔ Given Reads env key a := by
  unfold read? Given
  simp only [Option.bind_eq_some_iff, text?_eq_some_iff, hreader]
  constructor
  · rintro ⟨s, hbytes, hreads⟩
    exact ⟨s, Text.trim s.toList, hbytes, Text.trimsTo_trim s.toList, hreads⟩
  · rintro ⟨s, core, hbytes, hcore, hreads⟩
    rw [← Text.trim_eq_iff.mpr hcore] at hreads
    exact ⟨s, hbytes, hreads⟩

theorem read?_eq_none_iff (hreader : ∀ text a, reader text = some a ↔ Reads text a) :
    env.read? reader key = none ↔ ∀ a, ¬ Given Reads env key a := by
  simp only [Option.eq_none_iff_forall_ne_some, ne_eq, read?_eq_some_iff hreader]

theorem text?_congr (h : env.bytes? key = other.bytes? key) : env.text? key = other.text? key := by
  unfold text?
  rw [h]

theorem read?_congr (h : env.bytes? key = other.bytes? key) (reader : List Char → Option α) :
    env.read? reader key = other.read? reader key := by
  unfold read?
  rw [text?_congr h]

theorem read?_of_unset (h : env.bytes? key = none) (reader : List Char → Option α) :
    env.read? reader key = none := by
  unfold read? text?
  rw [h]
  rfl

end Environment

namespace Settings

open Environment (Given)

variable {α : Type} {Reads : List Char → α → Prop} {reader : List Char → Option α}
  {key : String} {default : α} {env other : Environment}

/-- A setting is the value that its variable gives, and the default if it gives none. -/
structure Follows (Reads : List Char → α → Prop) (env : Environment) (key : String)
    (default value : α) : Prop where
  given : ∀ a, Given Reads env key a → value = a
  unset : (∀ a, ¬ Given Reads env key a) → value = default

/-- What is read, or else the default, follows the variable. -/
theorem follows_getD (hreader : ∀ text a, reader text = some a ↔ Reads text a) :
    Follows Reads env key default ((env.read? reader key).getD default) where
  given a h := by
    rw [(Environment.read?_eq_some_iff hreader).mpr h]
    rfl
  unset h := by
    rw [(Environment.read?_eq_none_iff hreader).mpr h]
    rfl

/-- A variable that gives no value for any setting: what it is set to, if it is set at all, is no
text, or none of the kind that is asked for. -/
structure GivesNothing (env : Environment) (key : String) : Prop where
  capacity : key = capacityKey → ∀ n, ¬ Given (Reading.Numeral (Nat.pow 2 64)) env key n
  severity : key = severityKey → ∀ s, ¬ Given Reading.Level env key s
  console : key = consoleKey → ∀ b, ¬ Given Reading.Word env key b
  serviceName : key = serviceNameKey → ∀ name, name ≠ "" → env.bytes? key ≠ some (utf8 name)

/-- The other environment is the same, but for variables that give nothing and are now unset. -/
def Cleaned (env other : Environment) : Prop :=
  ∀ key, other.bytes? key = env.bytes? key ∨ GivesNothing env key ∧ other.bytes? key = none

/-- A service name is the text of its variable, unless that is empty. -/
theorem serviceName_eq_some_iff {name : String} :
    (fromEnvironment env).serviceName = some name ↔
      name ≠ "" ∧ env.bytes? serviceNameKey = some (utf8 name) := by
  simp only [fromEnvironment, Option.filter_eq_some_iff, Environment.text?_eq_some_iff,
    decide_eq_true_eq, and_comm]

/-! ## Two environments -/

theorem serviceName_congr (h : other.bytes? serviceNameKey = env.bytes? serviceNameKey) :
    (fromEnvironment other).serviceName = (fromEnvironment env).serviceName := by
  unfold fromEnvironment
  rw [Environment.text?_congr h]

theorem read?_of_cleaned (hreader : ∀ text a, reader text = some a ↔ Reads text a)
    (hnothing : GivesNothing env key → ∀ a, ¬ Given Reads env key a) (h : Cleaned env other) :
    other.read? reader key = env.read? reader key := by
  rcases h key with hsame | ⟨hgives, hunset⟩
  · exact Environment.read?_congr hsame reader
  · rw [Environment.read?_of_unset hunset,
      (Environment.read?_eq_none_iff hreader).mpr (hnothing hgives)]

theorem serviceName_of_cleaned (h : Cleaned env other) :
    (fromEnvironment other).serviceName = (fromEnvironment env).serviceName := by
  rcases h serviceNameKey with hsame | ⟨hgives, hunset⟩
  · exact serviceName_congr hsame
  · have hnone : (fromEnvironment env).serviceName = none := by
      refine Option.eq_none_iff_forall_ne_some.mpr fun name hname => ?_
      obtain ⟨hne, hbytes⟩ := serviceName_eq_some_iff.mp hname
      exact hgives.serviceName rfl name hne hbytes
    rw [hnone]
    unfold fromEnvironment Environment.text?
    rw [hunset]
    rfl

/-- The settings are the same in a cleaned environment, for a backend too. -/
theorem same_of_cleaned (h : Cleaned env other) (kind : BackendKind) :
    fromEnvironment other = fromEnvironment env ∧ forBackend kind other = forBackend kind env := by
  have hcapacity := read?_of_cleaned (fun _ _ => Reading.natural?_eq_some_iff)
    (fun hgives => hgives.capacity rfl) h
  have hseverity := read?_of_cleaned (fun _ _ => Reading.severity?_eq_some_iff)
    (fun hgives => hgives.severity rfl) h
  have hconsole := read?_of_cleaned (fun _ _ => Reading.switch?_eq_some_iff)
    (fun hgives => hgives.console rfl) h
  have hsettings : fromEnvironment other = fromEnvironment env := by
    calc fromEnvironment other
        = { fromEnvironment env with serviceName := (fromEnvironment other).serviceName } := by
          unfold fromEnvironment
          rw [hcapacity, hseverity, hconsole]
      _ = fromEnvironment env := by rw [serviceName_of_cleaned h]
  refine ⟨hsettings, ?_⟩
  unfold forBackend
  rw [hsettings, hconsole]

/-! ## Settings for a backend -/

/-- The console setting alone is another for a backend. -/
theorem forBackend_console (kind : BackendKind) (env : Environment) :
    { forBackend kind env with console := (fromEnvironment env).console } = fromEnvironment env := by
  unfold forBackend
  dsimp only
  split <;> rfl

theorem forBackend_of_ne {kind : BackendKind} (h : kind ≠ .stdout) (env : Environment) :
    forBackend kind env = fromEnvironment env :=
  if_neg fun hboth => h hboth.1

/-- Where the records go to standard output, the console is on exactly if its variable says so. -/
theorem forBackend_stdout_console (env : Environment) :
    (forBackend .stdout env).console = true ↔ Given Reading.Word env consoleKey true := by
  rw [← Environment.read?_eq_some_iff fun _ _ => Reading.switch?_eq_some_iff]
  unfold forBackend fromEnvironment
  cases env.read? Reading.switch? consoleKey <;> simp

/-! ## The settings and their variables -/

/-- For every environment and kind of backend: the capacity, the threshold and the console setting
are what their own variables give, and the defaults where these give nothing; the service name is
the text of its variable unless that is empty; two environments with the same bytes in one of these
variables agree on its setting, whatever the others are; a variable that gives nothing can be unset
without any change; and for a backend only the console setting can be another, which is on for
standard output exactly if its variable says so. -/
theorem settings_follow_their_variables (env other : Environment) (kind : BackendKind) :
    Follows (Reading.Numeral (Nat.pow 2 64)) env capacityKey defaultCapacity
        (fromEnvironment env).spool.capacity ∧
      Follows Reading.Level env severityKey .info (fromEnvironment env).threshold ∧
      Follows Reading.Word env consoleKey true (fromEnvironment env).console ∧
      (∀ name, (fromEnvironment env).serviceName = some name ↔
        name ≠ "" ∧ env.bytes? serviceNameKey = some (utf8 name)) ∧
      (other.bytes? capacityKey = env.bytes? capacityKey →
        (fromEnvironment other).spool = (fromEnvironment env).spool) ∧
      (other.bytes? severityKey = env.bytes? severityKey →
        (fromEnvironment other).threshold = (fromEnvironment env).threshold) ∧
      (other.bytes? consoleKey = env.bytes? consoleKey →
        (fromEnvironment other).console = (fromEnvironment env).console) ∧
      (other.bytes? serviceNameKey = env.bytes? serviceNameKey →
        (fromEnvironment other).serviceName = (fromEnvironment env).serviceName) ∧
      (Cleaned env other → fromEnvironment other = fromEnvironment env ∧
        forBackend kind other = forBackend kind env) ∧
      { forBackend kind env with console := (fromEnvironment env).console } = fromEnvironment env ∧
      (kind ≠ .stdout → forBackend kind env = fromEnvironment env) ∧
      (kind = .stdout →
        ((forBackend kind env).console = true ↔ Given Reading.Word env consoleKey true)) := by
  refine ⟨follows_getD fun _ _ => Reading.natural?_eq_some_iff,
    follows_getD fun _ _ => Reading.severity?_eq_some_iff,
    follows_getD fun _ _ => Reading.switch?_eq_some_iff,
    fun name => serviceName_eq_some_iff, fun h => ?_, fun h => ?_, fun h => ?_,
    serviceName_congr, fun h => same_of_cleaned h kind, forBackend_console kind env,
    fun h => forBackend_of_ne h env, fun h => h ▸ forBackend_stdout_console env⟩
  · unfold fromEnvironment
    rw [Environment.read?_congr h]
  · unfold fromEnvironment
    rw [Environment.read?_congr h]
  · unfold fromEnvironment
    rw [Environment.read?_congr h]

/-- A capacity and a service name that are given, a severity that there is not, and bytes that are
no text. -/
def untidy : Environment :=
  ⟨[(capacityKey, utf8 " +0042 "), (severityKey, utf8 "6"), (consoleKey, [0xFF]),
    (serviceNameKey, utf8 " ")]⟩

/-- Only what is given. -/
def tidy : Environment := ⟨[(capacityKey, utf8 " +0042 "), (serviceNameKey, utf8 " ")]⟩

/-- With and without the two variables that give nothing, the capacity and the service name are what
is set and the threshold is the default, and for standard output the console is off. -/
theorem settings_follow_their_variables_tidy :
    Cleaned untidy tidy ∧ (fromEnvironment untidy).spool.capacity = 42 ∧
      (fromEnvironment tidy).serviceName = some " " ∧ fromEnvironment tidy = fromEnvironment untidy ∧
      (forBackend .stdout tidy).console = false := by
  have hlevel : ∀ s, ¬ Given Reading.Level untidy severityKey s := by
    have htext : untidy.text? severityKey = some "6" := Environment.text?_eq_some_iff.mpr rfl
    refine (Environment.read?_eq_none_iff fun _ _ => Reading.severity?_eq_some_iff).mp ?_
    unfold Environment.read?
    rw [htext]
    rfl
  have hword : ∀ b, ¬ Given Reading.Word untidy consoleKey b := by
    rintro b ⟨s, core, hbytes, -, -⟩
    have hread : ofUtf8? [0xFF] = some s := ofUtf8?_eq_some_iff.mpr (Option.some.inj hbytes)
    unfold ofUtf8? Utf8.decode? at hread
    rw [Utf8.scan] at hread
    cases hread
  have hcleaned : Cleaned untidy tidy := by
    intro key
    by_cases hseverity : key = severityKey
    · subst hseverity
      exact .inr ⟨⟨fun h => absurd h (by decide), fun _ => hlevel, fun h => absurd h (by decide),
        fun h => absurd h (by decide)⟩, rfl⟩
    by_cases hconsole : key = consoleKey
    · subst hconsole
      exact .inr ⟨⟨fun h => absurd h (by decide), fun h => absurd h (by decide), fun _ => hword,
        fun h => absurd h (by decide)⟩, rfl⟩
    · have hseverity' : (severityKey == key) = false := beq_false_of_ne fun h => hseverity h.symm
      have hconsole' : (consoleKey == key) = false := beq_false_of_ne fun h => hconsole h.symm
      refine .inl ?_
      simp only [Environment.bytes?, untidy, tidy, List.find?_cons, hseverity', hconsole']
  have hgiven : Given (Reading.Numeral (Nat.pow 2 64)) untidy capacityKey 42 :=
    ⟨" +0042 ", "+0042".toList, rfl, Text.trim_eq_iff.mp (by rfl),
      Reading.natural?_eq_some_iff.mp (by rfl)⟩
  have hnothing : ¬ Given Reading.Word tidy consoleKey true := by
    rintro ⟨s, core, hbytes, -, -⟩
    cases hbytes
  obtain ⟨hcapacity, -, -, -, -, -, -, hname, hclean, -, -, -⟩ :=
    settings_follow_their_variables untidy tidy .stdout
  obtain ⟨-, -, -, htext, -, -, -, -, -, -, -, hconsole⟩ :=
    settings_follow_their_variables tidy tidy .stdout
  exact ⟨hcleaned, hcapacity.given 42 hgiven, (htext " ").mpr ⟨by decide, by rfl⟩,
    (hclean hcleaned).1, Bool.eq_false_iff.mpr fun hon => hnothing ((hconsole rfl).mp hon)⟩

end Settings

end LogSpool
