import LogSpool.Proofs.Backend.Splitting
set_option autoImplicit false

/-!
# Backends: the grammar of DSNs

`Names` says which backend a trimmed DSN names, and `Refuses` why it names none; neither mentions
the reader.  `Targets` and `Misses` say the same of the target alone, kind by kind.

* `dsn_is_read_exactly` : a DSN is read as the backend that it names, and refused for the reason
  that it has, whatever blank characters stand around it and in whichever case its scheme is.
-/

namespace LogSpool.Backend

open Text (SameLetters TrimsTo isBlank dropEnd trim)

variable {s t : String} {kind : BackendKind} {dsn scheme rest target : List Char} {b : Backend}
  {e : DsnError}

/-! ## The grammar -/

/-- What follows the separator gives a backend its target. -/
inductive Targets : BackendKind → List Char → List Char → Prop where
  | stdout (rest : List Char) : Targets .stdout rest []
  | stderr (rest : List Char) : Targets .stderr rest []
  | noop (rest : List Char) : Targets .noop rest []
  | file {path : List Char} (hpath : path ≠ []) : Targets .file path path
  /-- The slashes at the end of an address do not belong to it. -/
  | tcp {address slashes : List Char} (haddress : address ≠ []) (hlast : address.getLast? ≠ some '/')
      (hslashes : ∀ c ∈ slashes, c = '/') : Targets .tcp (address ++ slashes) address

/-- What follows the separator gives a backend that needs a target none. -/
inductive Misses : BackendKind → List Char → DsnError → Prop where
  | address {slashes : List Char} (hslashes : ∀ c ∈ slashes, c = '/') :
      Misses .tcp slashes (.missingTarget "host:port")
  | path : Misses .file [] (.missingTarget "path")

/-- A trimmed DSN names a backend: its scheme is that of a kind, in any case, and its rest gives
the kind a target. -/
inductive Names (dsn : List Char) : Backend → Prop where
  | mk {kind : BackendKind} {scheme rest target : List Char} (split : Splits dsn scheme rest)
      (spelled : SameLetters scheme kind.scheme) (given : Targets kind rest target) :
      Names dsn ⟨kind, String.ofList target, String.ofList dsn⟩

/-- A trimmed DSN names no backend, for this reason. -/
inductive Refuses (dsn : List Char) : DsnError → Prop where
  | noSeparator (hnone : ¬ separator <:+: dsn) : Refuses dsn (.unknownScheme (String.ofList dsn))
  | noKind {scheme rest : List Char} (split : Splits dsn scheme rest)
      (unknown : ∀ kind : BackendKind, ¬ SameLetters scheme kind.scheme) :
      Refuses dsn (.unknownScheme (String.ofList (scheme.map Char.toLower)))
  | noTarget {kind : BackendKind} {scheme rest : List Char} {e : DsnError}
      (split : Splits dsn scheme rest) (spelled : SameLetters scheme kind.scheme)
      (missing : Misses kind rest e) : Refuses dsn e

/-! ## Schemes -/

theorem map_toLower_scheme (kind : BackendKind) : kind.scheme.map Char.toLower = kind.scheme := by
  cases kind <;> decide

theorem ofScheme?_eq_some_iff : BackendKind.ofScheme? scheme = some kind ↔ scheme = kind.scheme := by
  constructor
  · intro h
    have hfound := List.find?_some h
    exact (eq_of_beq hfound).symm
  · rintro rfl
    exact BackendKind.ofScheme?_scheme kind

/-- A scheme belongs to a kind if it is spelled like that of the kind, in any case. -/
theorem ofScheme?_toLower_eq_some_iff :
    BackendKind.ofScheme? (scheme.map Char.toLower) = some kind ↔ SameLetters scheme kind.scheme := by
  rw [ofScheme?_eq_some_iff, Text.sameLetters_iff_toLower, map_toLower_scheme]

theorem ofScheme?_toLower_eq_none_iff : BackendKind.ofScheme? (scheme.map Char.toLower) = none ↔
    ∀ kind : BackendKind, ¬ SameLetters scheme kind.scheme := by
  simp only [← ofScheme?_toLower_eq_some_iff, Option.eq_none_iff_forall_ne_some, ne_eq]

/-! ## Targets -/

theorem isSlash_iff {slashes : List Char} :
    (∀ c ∈ slashes, (c == '/') = true) ↔ ∀ c ∈ slashes, c = '/' := by
  simp only [beq_iff_eq]

theorem targetOf_eq_ok_iff : targetOf kind rest = .ok target ↔ Targets kind rest target := by
  cases kind with
  | stdout | stderr | noop =>
    constructor
    · rintro ⟨⟩
      constructor
    · rintro ⟨⟩
      rfl
  | file =>
    constructor
    · intro h
      simp only [targetOf, List.isEmpty_iff] at h
      split at h
      · cases h
      · next hne =>
        cases h
        exact .file hne
    · rintro ⟨⟩
      simp [targetOf, *]
  | tcp =>
    constructor
    · intro h
      simp only [targetOf, List.isEmpty_iff] at h
      split at h
      · cases h
      · next hne =>
        cases h
        obtain ⟨slashes, hrest, hslashes⟩ := Text.exists_dropEnd_append (· == '/') rest
        have hlast : (dropEnd (· == '/') rest).getLast? ≠ some '/' := fun hslash =>
          absurd (Text.not_getLast?_dropEnd hslash) (by decide)
        have htcp := Targets.tcp hne hlast (isSlash_iff.mp hslashes)
        rwa [← hrest] at htcp
    · rintro (_ | _ | _ | _ | ⟨hne, hlast, hslashes⟩)
      have haddress : dropEnd (· == '/') (target ++ _) = target :=
        Text.dropEnd_eq_iff.mpr ⟨⟨_, rfl, isSlash_iff.mpr hslashes⟩, fun c hc => by
          simpa using fun heq : c = '/' => hlast (heq ▸ hc)⟩
      simp [targetOf, haddress, hne]

theorem targetOf_eq_error_iff : targetOf kind rest = .error e ↔ Misses kind rest e := by
  cases kind with
  | stdout | stderr | noop =>
    constructor
    · rintro ⟨⟩
    · rintro ⟨⟩
  | file =>
    constructor
    · intro h
      simp only [targetOf, List.isEmpty_iff] at h
      split at h
      · next hnil =>
        cases h
        exact hnil ▸ .path
      · cases h
    · rintro ⟨⟩
      rfl
  | tcp =>
    constructor
    · intro h
      simp only [targetOf, List.isEmpty_iff] at h
      split at h
      · next hnil =>
        cases h
        exact .address (isSlash_iff.mp (Text.dropEnd_eq_nil_iff.mp hnil))
      · cases h
    · rintro ⟨hslashes⟩
      have hnil := Text.dropEnd_eq_nil_iff.mpr (isSlash_iff.mpr hslashes)
      simp [targetOf, hnil]

/-! ## Whole DSNs -/

theorem parse_of_splits (split : Splits (trim s.toList) scheme rest) :
    parse s =
      match BackendKind.ofScheme? (scheme.map Char.toLower) with
      | none => .error (.unknownScheme (String.ofList (scheme.map Char.toLower)))
      | some kind => (targetOf kind rest).map fun target =>
          ⟨kind, String.ofList target, String.ofList (trim s.toList)⟩ := by
  have hsplit := splitScheme?_eq_some_iff.mpr split
  cases hkind : BackendKind.ofScheme? (scheme.map Char.toLower) <;>
    simp [parse, hsplit, hkind]

theorem parse_of_spelled (split : Splits (trim s.toList) scheme rest)
    (spelled : SameLetters scheme kind.scheme) :
    parse s = (targetOf kind rest).map fun target =>
      ⟨kind, String.ofList target, String.ofList (trim s.toList)⟩ := by
  rw [parse_of_splits split]
  simp only [ofScheme?_toLower_eq_some_iff.mpr spelled]

theorem parse_of_not_infix (hnone : ¬ separator <:+: trim s.toList) :
    parse s = .error (.unknownScheme (String.ofList (trim s.toList))) := by
  unfold parse
  simp only [splitScheme?_eq_none_iff.mpr hnone]

theorem parse_of_unknown (split : Splits (trim s.toList) scheme rest)
    (unknown : ∀ kind : BackendKind, ¬ SameLetters scheme kind.scheme) :
    parse s = .error (.unknownScheme (String.ofList (scheme.map Char.toLower))) := by
  rw [parse_of_splits split]
  simp only [ofScheme?_toLower_eq_none_iff.mpr unknown]

/-- A DSN names the backend that it is read as, or is refused for the reason that it has. -/
theorem parse_sound (s : String) :
    (∃ b, parse s = .ok b ∧ Names (trim s.toList) b) ∨
      ∃ e, parse s = .error e ∧ Refuses (trim s.toList) e := by
  cases hsplit : splitScheme? (trim s.toList) with
  | none =>
    have hnone := splitScheme?_eq_none_iff.mp hsplit
    exact .inr ⟨_, parse_of_not_infix hnone, .noSeparator hnone⟩
  | some parts =>
    have split : Splits (trim s.toList) parts.1 parts.2 := splitScheme?_eq_some_iff.mp hsplit
    cases hkind : BackendKind.ofScheme? (parts.1.map Char.toLower) with
    | none =>
      have unknown := ofScheme?_toLower_eq_none_iff.mp hkind
      exact .inr ⟨_, parse_of_unknown split unknown, .noKind split unknown⟩
    | some kind =>
      have spelled := ofScheme?_toLower_eq_some_iff.mp hkind
      have hparse := parse_of_spelled split spelled
      cases htarget : targetOf kind parts.2 with
      | ok target =>
        rw [htarget] at hparse
        exact .inl ⟨_, hparse, .mk split spelled (targetOf_eq_ok_iff.mp htarget)⟩
      | error e =>
        rw [htarget] at hparse
        exact .inr ⟨e, hparse, .noTarget split spelled (targetOf_eq_error_iff.mp htarget)⟩

theorem parse_eq_ok_iff : parse s = .ok b ↔ Names (trim s.toList) b := by
  constructor
  · intro h
    obtain ⟨other, hother, hnames⟩ | ⟨e, he, -⟩ := parse_sound s
    · cases h.symm.trans hother
      exact hnames
    · cases h.symm.trans he
  · rintro ⟨split, spelled, given⟩
    rw [parse_of_spelled split spelled, targetOf_eq_ok_iff.mpr given]
    rfl

theorem parse_eq_error_iff : parse s = .error e ↔ Refuses (trim s.toList) e := by
  constructor
  · intro h
    obtain ⟨b, hb, -⟩ | ⟨other, hother, hrefuses⟩ := parse_sound s
    · cases h.symm.trans hb
    · cases h.symm.trans hother
      exact hrefuses
  · rintro (hnone | ⟨split, unknown⟩ | ⟨split, spelled, missing⟩)
    · exact parse_of_not_infix hnone
    · exact parse_of_unknown split unknown
    · rw [parse_of_spelled split spelled, targetOf_eq_error_iff.mpr missing]
      rfl

/-- Nothing but the trimmed text counts. -/
theorem parse_congr (h : trim s.toList = trim t.toList) : parse s = parse t := by
  unfold parse
  rw [h]

/-- What a DSN says, apart from the DSN itself. -/
def meaning (b : Backend) : BackendKind × String := (b.kind, b.target)

/-- The case of its scheme does not change what a DSN says. -/
theorem meaning_of_sameLetters {other : List Char} (split : Splits s.toList scheme rest)
    (hsame : SameLetters scheme other) :
    (parse (String.ofList (other ++ separator ++ rest))).map meaning = (parse s).map meaning := by
  have hother := (split.of_sameLetters hsame).trim
  rw [← String.toList_ofList (l := other ++ separator ++ rest)] at hother
  have hlower := Text.sameLetters_iff_toLower.mp (sameLetters_dropWhile hsame)
  rw [parse_of_splits split.trim, parse_of_splits hother, hlower]
  cases BackendKind.ofScheme? ((other.dropWhile isBlank).map Char.toLower) with
  | none => rfl
  | some kind => cases hT : targetOf kind (dropEnd isBlank rest) <;> simp only [hT] <;> rfl

/-- The DSN that a backend was read from is trimmed, and is read as the same backend again. -/
theorem parse_dsn (h : parse s = .ok b) : parse b.dsn = .ok b := by
  obtain ⟨split, spelled, given⟩ := parse_eq_ok_iff.mp h
  rw [← h]
  exact parse_congr (by rw [String.toList_ofList, Text.trim_trim])

/-- Every text, without the blank characters around it, either names the backend that it is read
as or is refused, for the reason that it has.  Blank characters around the text make no difference,
the case of its scheme makes none to what it says, and the DSN that the backend was read from is
read as the same backend. -/
theorem dsn_is_read_exactly (s : String) :
    ∃ dsn, TrimsTo s.toList dsn ∧ (∀ b, parse s = .ok b ↔ Names dsn b) ∧
      (∀ e, parse s = .error e ↔ Refuses dsn e) ∧
      (∀ before after : String, (∀ c ∈ before.toList, isBlank c = true) →
        (∀ c ∈ after.toList, isBlank c = true) → parse (before ++ s ++ after) = parse s) ∧
      (∀ scheme other rest, Splits s.toList scheme rest → SameLetters scheme other →
        (parse (String.ofList (other ++ separator ++ rest))).map meaning = (parse s).map meaning) ∧
      ∀ b, parse s = .ok b → parse b.dsn = .ok b := by
  refine ⟨trim s.toList, Text.trimsTo_trim s.toList, fun b => parse_eq_ok_iff,
    fun e => parse_eq_error_iff, fun before after hbefore hafter => parse_congr ?_,
    fun scheme other rest => meaning_of_sameLetters, fun b => parse_dsn⟩
  rw [String.toList_append, String.toList_append, Text.trim_surrounded hbefore hafter]

/-- A DSN with a second separator in its target, capitals, slashes at its end and blank characters
around it. -/
theorem dsn_is_read_exactly_twice :
    TrimsTo "TCP://a://b// ".toList "TCP://a://b//".toList ∧
      Names "TCP://a://b//".toList ⟨.tcp, "a://b", "TCP://a://b//"⟩ ∧
      (∀ c ∈ "\u2003\t".toList, isBlank c = true) ∧
      parse ("\u2003\t" ++ "TCP://a://b// " ++ "") = .ok ⟨.tcp, "a://b", "TCP://a://b//"⟩ ∧
      Splits "TCP://a://b// ".toList "TCP".toList "a://b// ".toList ∧
      SameLetters "TCP".toList "tcP".toList ∧
      (parse (String.ofList ("tcP".toList ++ separator ++ "a://b// ".toList))).map meaning =
        .ok (.tcp, "a://b") ∧
      parse "TCP://a://b//" = .ok ⟨.tcp, "a://b", "TCP://a://b//"⟩ := by
  obtain ⟨dsn, htrims, hok, -, hblank, hcase, hagain⟩ := dsn_is_read_exactly "TCP://a://b// "
  have hparse : parse "TCP://a://b// " = .ok ⟨.tcp, "a://b", "TCP://a://b//"⟩ := by rfl
  have hdsn : dsn = "TCP://a://b//".toList := (Text.trim_eq_iff.mpr htrims).symm.trans (by rfl)
  have hbefore : ∀ c ∈ "\u2003\t".toList, isBlank c = true :=
    List.all_eq_true.mp (by rfl)
  have hsplit : Splits "TCP://a://b// ".toList "TCP".toList "a://b// ".toList :=
    splitScheme?_eq_some_iff.mp (by rfl)
  have hsame : SameLetters "TCP".toList "tcP".toList :=
    Text.sameLetters_iff_toLower.mpr (by rfl)
  subst hdsn
  refine ⟨htrims, (hok _).mp hparse, hbefore, (hblank _ _ hbefore (List.forall_mem_nil _)).trans hparse, hsplit,
    hsame, (hcase _ _ _ hsplit hsame).trans ?_, hagain _ hparse⟩
  rw [hparse]
  rfl

end LogSpool.Backend
