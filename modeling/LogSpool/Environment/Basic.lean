import LogSpool.Environment.Reading
import LogSpool.Text.Utf8
set_option autoImplicit false

/-!
# Environment: variables

The variables of a process.  A value is a byte string; one that is not UTF-8
counts as unset wherever text is asked for.
-/

namespace LogSpool

/-- The variables of a process and their values, the latest setting first. -/
structure Environment where
  settings : List (String × Bytes)
  deriving DecidableEq, Repr, Inhabited

namespace Environment

/-- No variable is set. -/
def empty : Environment := ⟨[]⟩

/-- Set a variable. -/
def set (env : Environment) (key : String) (value : Bytes) : Environment :=
  ⟨(key, value) :: env.settings⟩

/-- Set several variables. -/
def setAll (env : Environment) (values : List (String × Bytes)) : Environment :=
  values.foldl (fun env v => env.set v.1 v.2) env

/-- The bytes a variable is set to. -/
def bytes? (env : Environment) (key : String) : Option Bytes :=
  (env.settings.find? (·.1 == key)).map (·.2)

/-- The text a variable is set to. -/
def text? (env : Environment) (key : String) : Option String :=
  (env.bytes? key).bind ofUtf8?

/-- The text a variable is set to, or a default. -/
def textOr (env : Environment) (key default : String) : String :=
  (env.text? key).getD default

/-- What a reader makes of a variable's text without the blanks around it. -/
def read? {α : Type} (env : Environment) (reader : List Char → Option α) (key : String) :
    Option α :=
  (env.text? key).bind fun s => reader (Text.trim s.toList)

theorem bytes?_set_self (env : Environment) (key : String) (value : Bytes) :
    (env.set key value).bytes? key = some value := by
  simp [bytes?, set]

theorem bytes?_set_of_ne (env : Environment) {key other : String} (h : other ≠ key)
    (value : Bytes) : (env.set key value).bytes? other = env.bytes? other := by
  have hk : (key == other) = false := by simpa using fun e => h e.symm
  simp [bytes?, set, hk]

end Environment

end LogSpool
