import LogSpool.Proofs.Backend.Grammar
set_option autoImplicit false

/-!
# Backends: targets read again

The plain DSN of a backend is the scheme of its kind, the separator and its target.  A path never
ends with a blank character, since the whole DSN is trimmed.  An address loses its slashes only
after that, and what stood before them may be blank: such an address does not come back.

* `target_comes_back_unless_blank` : the plain DSN says the same again exactly if the target does
  not end with a blank character, which happens to no backend but an address before a slash.
-/

namespace LogSpool.Backend

open Text (isBlank dropEnd trim)

variable {s : String} {b : Backend} {kind : BackendKind} {dsn scheme rest target : List Char}

/-- The plain DSN of a backend. -/
def canonical (b : Backend) : String :=
  String.ofList (b.kind.scheme ++ separator ++ b.target.toList)

/-- The target of a backend ends with a blank character. -/
def EndsBlank (b : Backend) : Prop :=
  ∃ c, b.target.toList.getLast? = some c ∧ isBlank c = true

theorem dropEnd_target (h : ¬ b.EndsBlank) : dropEnd isBlank b.target.toList = b.target.toList :=
  Text.dropEnd_eq_self fun c hc => Bool.eq_false_iff.mpr fun hblank => h ⟨c, hc, hblank⟩

theorem dropWhile_scheme (kind : BackendKind) : kind.scheme.dropWhile isBlank = kind.scheme := by
  cases kind <;> rfl

theorem splits_canonical (b : Backend) :
    Splits (trim b.canonical.toList) b.kind.scheme (dropEnd isBlank b.target.toList) := by
  have hnone : ¬ separator <:+: b.kind.scheme := by
    refine splitScheme?_eq_none_iff.mp ?_
    cases b.kind <;> rfl
  have hsplit := (splits_iff.mpr ⟨rfl, hnone⟩ :
    Splits (b.kind.scheme ++ separator ++ b.target.toList) b.kind.scheme b.target.toList).trim
  rwa [dropWhile_scheme, ← String.toList_ofList (l := b.kind.scheme ++ separator ++ _)] at hsplit

/-- The plain DSN is read as its kind, with what is left of the target when it is trimmed. -/
theorem meaning_canonical (b : Backend) :
    (parse b.canonical).map meaning =
      (targetOf b.kind (dropEnd isBlank b.target.toList)).map fun target =>
        (b.kind, String.ofList target) := by
  rw [parse_of_spelled (splits_canonical b) (Text.sameLetters_iff_toLower.mpr rfl)]
  cases targetOf b.kind (dropEnd isBlank b.target.toList) <;> rfl

/-- The last character of a trimmed DSN with something after its separator is not blank. -/
theorem not_isBlank_of_getLast? (split : Splits (trim s.toList) scheme rest) {c : Char}
    (hc : rest.getLast? = some c) : isBlank c = false := by
  refine (Text.trimsTo_trim s.toList).last c ?_
  rw [split.parts, List.getLast?_append, hc]
  rfl

theorem Targets.again (h : Targets kind rest target) : Targets kind target target := by
  cases h with
  | stdout => exact .stdout []
  | stderr => exact .stderr []
  | noop => exact .noop []
  | file hpath => exact .file hpath
  | tcp haddress hlast =>
    have htcp := Targets.tcp haddress hlast (List.forall_mem_nil _)
    rwa [List.append_nil] at htcp

/-- A path and an address are not empty, an address does not end with a slash, and there is no other
target. -/
theorem target_of_names (hnames : Names dsn b) : (b.kind = .file → b.target ≠ "") ∧
    (b.kind = .tcp → b.target ≠ "" ∧ b.target.toList.getLast? ≠ some '/') ∧
    (b.kind ≠ .file → b.kind ≠ .tcp → b.target = "") := by
  obtain ⟨-, -, given⟩ := hnames
  cases given with
  | stdout | stderr | noop => exact ⟨nofun, nofun, fun _ _ => rfl⟩
  | file hpath =>
    exact ⟨fun _ => String.ofList_eq_empty_iff.not.mpr hpath, nofun, fun hfile => absurd rfl hfile⟩
  | tcp haddress hlast =>
    refine ⟨nofun, fun _ => ⟨String.ofList_eq_empty_iff.not.mpr haddress, ?_⟩,
      fun _ htcp => absurd rfl htcp⟩
    rwa [String.toList_ofList]

/-- Only an address ends with a blank character, and only before a slash. -/
theorem tcp_of_endsBlank (hnames : Names (trim s.toList) b) (hblank : b.EndsBlank) :
    b.kind = .tcp ∧ b.dsn.toList.getLast? = some '/' := by
  obtain ⟨c, hc, hblank⟩ := hblank
  obtain ⟨split, spelled, given⟩ := hnames
  rw [String.toList_ofList] at hc
  cases given with
  | stdout | stderr | noop => cases hc
  | file =>
    rw [not_isBlank_of_getLast? split hc] at hblank
    cases hblank
  | @tcp address slashes haddress hlast hslashes =>
    refine ⟨rfl, ?_⟩
    rw [String.toList_ofList, split.parts, List.getLast?_append, List.getLast?_append]
    cases hend : slashes.getLast? with
    | some d =>
      rw [hslashes d (List.mem_of_getLast? hend)]
      rfl
    | none =>
      -- Without a slash the blank character would be the last of the DSN.
      obtain rfl := List.getLast?_eq_none_iff.mp hend
      rw [List.append_nil] at split
      rw [not_isBlank_of_getLast? split hc] at hblank
      cases hblank

/-- What is left of an address that ends with a blank character when its DSN is read again. -/
def remainder (b : Backend) : List Char := dropEnd (· == '/') (dropEnd isBlank b.target.toList)

theorem remainder_lt (hblank : b.EndsBlank) :
    b.remainder <+: b.target.toList ∧ b.remainder ≠ b.target.toList := by
  have hfirst := List.rdropWhile_prefix isBlank b.target.toList
  have hsecond := List.rdropWhile_prefix (· == '/') (dropEnd isBlank b.target.toList)
  refine ⟨hsecond.trans hfirst, fun heq => ?_⟩
  obtain ⟨c, hc, hisBlank⟩ := hblank
  have hlength : b.target.toList.length ≤ (dropEnd isBlank b.target.toList).length := by
    conv_lhs => rw [← heq]
    exact hsecond.length_le
  have hkept : dropEnd isBlank b.target.toList = b.target.toList := hfirst.eq_of_length_le hlength
  rw [Text.not_getLast?_dropEnd (p := isBlank) (hkept.symm ▸ hc)] at hisBlank
  cases hisBlank

theorem meaning_canonical_of_not_endsBlank (hnames : Names (trim s.toList) b) (h : ¬ b.EndsBlank) :
    (parse b.canonical).map meaning = .ok (meaning b) := by
  rw [meaning_canonical, dropEnd_target h]
  obtain ⟨-, -, given⟩ := hnames
  rw [String.toList_ofList, targetOf_eq_ok_iff.mpr given.again]
  rfl

/-- The plain DSN of an address that ends with a blank character says what is left of it. -/
theorem meaning_canonical_of_tcp (htcp : b.kind = .tcp) : (parse b.canonical).map meaning =
    if b.remainder = [] then .error (.missingTarget "host:port")
    else .ok (.tcp, String.ofList b.remainder) := by
  have htarget : targetOf .tcp (dropEnd isBlank b.target.toList) =
      if b.remainder = [] then .error (.missingTarget "host:port") else .ok b.remainder := by
    simp only [targetOf, List.isEmpty_iff]
    rfl
  rw [meaning_canonical, htcp, htarget]
  split <;> rfl

/-- Of an address that ends with a blank character, which one does only before a slash, less comes
back. -/
theorem less_comes_back (hnames : Names (trim s.toList) b) (hblank : b.EndsBlank) :
    b.kind = .tcp ∧ b.dsn.toList.getLast? = some '/' ∧
      b.remainder <+: b.target.toList ∧ b.remainder ≠ b.target.toList ∧
      (parse b.canonical).map meaning =
        if b.remainder = [] then .error (.missingTarget "host:port")
        else .ok (.tcp, String.ofList b.remainder) := by
  obtain ⟨htcp, hslash⟩ := tcp_of_endsBlank hnames hblank
  obtain ⟨hstarts, hne⟩ := remainder_lt hblank
  exact ⟨htcp, hslash, hstarts, hne, meaning_canonical_of_tcp htcp⟩

/-- Whatever backend a DSN is read as: a path is not empty and does not end with a blank character,
an address is not empty and does not end with a slash, and the other backends have no target.  The
plain DSN made of the scheme and the target says the same again exactly if the target does not end
with a blank character.  Only an address does, one whose DSN ends with a slash; of that the plain
DSN gives back less, or it is refused because nothing is left of it. -/
theorem target_comes_back_unless_blank (s : String) (b : Backend) (h : parse s = .ok b) :
    (b.kind = .file → b.target ≠ "" ∧ ¬ b.EndsBlank) ∧
      (b.kind = .tcp → b.target ≠ "" ∧ b.target.toList.getLast? ≠ some '/') ∧
      (b.kind ≠ .file → b.kind ≠ .tcp → b.target = "") ∧
      ((parse b.canonical).map meaning = .ok (b.kind, b.target) ↔ ¬ b.EndsBlank) ∧
      (b.EndsBlank → b.kind = .tcp ∧ b.dsn.toList.getLast? = some '/' ∧
        b.remainder <+: b.target.toList ∧ b.remainder ≠ b.target.toList ∧
        (parse b.canonical).map meaning =
          if b.remainder = [] then .error (.missingTarget "host:port")
          else .ok (.tcp, String.ofList b.remainder)) := by
  have hnames := parse_eq_ok_iff.mp h
  have hless := less_comes_back hnames
  obtain ⟨hpath, haddress, hnothing⟩ := target_of_names hnames
  refine ⟨fun hfile => ⟨hpath hfile, fun hblank => ?_⟩, haddress, hnothing,
    ⟨fun hsame hblank => ?_, meaning_canonical_of_not_endsBlank hnames⟩, hless⟩
  · have hkind := (hless hblank).1
    rw [hfile] at hkind
    cases hkind
  · obtain ⟨-, -, -, hne, hrest⟩ := hless hblank
    rw [hrest] at hsame
    split at hsame
    · cases hsame
    · have htarget : String.ofList b.remainder = b.target := congrArg Prod.snd (Except.ok.inj hsame)
      exact hne (by rw [← htarget, String.toList_ofList])

/-- Of an address that is nothing but a blank character before its slash nothing comes back. -/
theorem target_comes_back_unless_blank_only :
    parse "tcp:// /" = .ok ⟨.tcp, " ", "tcp:// /"⟩ ∧
      (⟨.tcp, " ", "tcp:// /"⟩ : Backend).canonical = "tcp:// " ∧
      (⟨.tcp, " ", "tcp:// /"⟩ : Backend).EndsBlank ∧
      (parse "tcp:// ").map meaning = .error (.missingTarget "host:port") := by
  have hparse : parse "tcp:// /" = .ok ⟨.tcp, " ", "tcp:// /"⟩ := by rfl
  have hblank : (⟨.tcp, " ", "tcp:// /"⟩ : Backend).EndsBlank := ⟨' ', rfl, rfl⟩
  obtain ⟨-, -, -, -, hless⟩ := target_comes_back_unless_blank _ _ hparse
  exact ⟨hparse, rfl, hblank, (hless hblank).2.2.2.2⟩

end LogSpool.Backend
