import Mathlib.Data.List.DropRight
import Rawbin.Library.SemVer
import Rawbin.Verify.Sequential

/-!
# The versions of a firmware

`check_ota_update` reads a version as a tuple of numbers, or as 0.0.0 when `int()` raises, and
compares the tuples.
-/

namespace Rawbin

open SemVer

/-! ## What `int()` makes of a component -/

section
variable {I : Interpreter} {c s : Char} {cs ds rest : List Char} {p : Char → Bool} {n : Numeral}

theorem toNat_of_isDigit (h : c.isDigit = true) : 48 ≤ c.toNat ∧ c.toNat ≤ 57 := by
  simpa [Char.isDigit, UInt32.le_iff_toNat_le] using h

theorem ne_of_isDigit (h : c.isDigit = true) (hs : s.isDigit = false) : c ≠ s := by
  rintro rfl
  cases h.symm.trans hs

theorem digitValue_of_isDigit (h : c.isDigit = true) :
    digitValue I 10 c = some (c.toNat - '0'.toNat) := by
  have hlt : c.toNat - 48 < 10 := by
    have hrange := toNat_of_isDigit h
    omega
  simp [digitValue, h, Option.filter, hlt]

theorem isIntSpace_of_isDigit (h : c.isDigit = true) : isIntSpace I c = false := by
  obtain ⟨hlo, hhi⟩ := toNat_of_isDigit h
  have hascii : isAscii c = true := by
    refine decide_eq_true (UInt32.lt_iff_toNat_lt.mpr ?_)
    show c.toNat < 128
    omega
  have hspace : c ≠ ' ' := ne_of_isDigit h rfl
  have hcontrol : ¬ c.toNat ≤ 13 := by omega
  simp [isIntSpace, hascii, hspace, hcontrol]

theorem pyDigits_cons (h : c ≠ '_') (base m : ℕ) :
    pyDigits I base m (c :: cs) =
      (digitValue I base c).bind fun k => pyDigits I base (m * base + k) cs :=
  pyDigits.eq_3 _ _ _ _ _ fun _ _ hc _ => h hc

/-- Digits, then something else or nothing. -/
theorem pyDigits_append (h : ∀ c ∈ ds, c.isDigit = true) (m : ℕ) :
    pyDigits I 10 m (ds ++ rest) = pyDigits I 10 (Numeral.valueFrom m ds) rest := by
  induction ds generalizing m with
  | nil => rfl
  | cons c ds ih =>
    have hc := h c List.mem_cons_self
    rw [List.cons_append, pyDigits_cons (ne_of_isDigit hc rfl), digitValue_of_isDigit hc]
    exact ih (fun c hc => h c (List.mem_cons_of_mem _ hc)) _

/-- A sign among the digits. -/
theorem pyDigits_sign (hs : s = '-' ∨ s = '+') (m : ℕ) :
    pyDigits I 10 m (s :: rest) = none := by
  obtain rfl | rfl := hs
  · rw [pyDigits_cons (by decide)]
    rfl
  · rw [pyDigits_cons (by decide)]
    rfl

/-! `strip` removes nothing before the first and behind the last character that stays. -/

theorem dropWhile_stays (hs : p s = false) :
    (cs ++ s :: rest).dropWhile p = cs.dropWhile p ++ s :: rest := by
  have hs' : ¬ p s = true := by rw [hs]; nofun
  induction cs with
  | nil => exact List.dropWhile_cons_of_neg hs'
  | cons c cs ih =>
    rw [List.cons_append, List.dropWhile_cons, List.dropWhile_cons, ih]
    split <;> rfl

theorem stripBy_append (hne : ds ≠ []) (hds : ∀ c ∈ ds, p c = false) (hs : p s = false) :
    stripBy p (ds ++ s :: rest) = ds ++ s :: rest.rdropWhile p := by
  have hfirst : (ds ++ s :: rest).dropWhile p = ds ++ s :: rest := by
    obtain ⟨d, ds, rfl⟩ := List.exists_cons_of_ne_nil hne
    refine List.dropWhile_cons_of_neg ?_
    rw [hds d List.mem_cons_self]
    nofun
  rw [stripBy, hfirst, List.reverse_append, List.reverse_cons, List.append_assoc,
    List.singleton_append, dropWhile_stays hs, List.reverse_append, List.reverse_cons,
    List.reverse_reverse, List.append_assoc]
  rfl

theorem stripBy_eq_self (h : ∀ c ∈ cs, p c = false) : stripBy p cs = cs := by
  have hfirst : cs.dropWhile p = cs := by
    refine List.dropWhile_eq_self_iff.mpr fun _ => ?_
    rw [h _ (List.getElem_mem _)]
    nofun
  rw [stripBy, hfirst]
  refine List.rdropWhile_eq_self_iff.mpr fun hne => ?_
  rw [h _ (List.getLast_mem hne)]
  nofun

theorem stripBy_cons (h : p c = true) : stripBy p (c :: cs) = stripBy p cs := by
  rw [stripBy, List.dropWhile_cons_of_pos h, stripBy]

/-- A literal without a sign. -/
theorem pyNat_cons (h : c ≠ '_') :
    pyNat I 10 (c :: cs) =
      if I.maxStrDigits < ((c :: cs).filter (· ≠ '_')).length then none
      else pyDigits I 10 0 (c :: cs) := by
  rw [pyNat.eq_3 I 10 (c :: cs) nofun fun _ heq => h (List.cons.inj heq).1, decide_eq_true rfl,
    Bool.true_and]
  simp only [decide_eq_true_eq]

/-- What is left after `strip` starts with a number. -/
theorem pyInt_of_strip (h : stripBy (isIntSpace I) cs = n.chars ++ rest) :
    pyInt I 10 cs =
      if I.maxStrDigits < ((n.chars ++ rest).filter (· ≠ '_')).length then none
      else (pyDigits I 10 n.value rest).map fun k : ℕ => (k : ℤ) := by
  have hdigits : pyDigits I 10 0 (n.chars ++ rest) = pyDigits I 10 n.value rest :=
    pyDigits_append n.digits 0
  obtain ⟨c, ds, hcs⟩ := List.exists_cons_of_ne_nil n.ne
  have hc : c.isDigit = true := n.digits c (hcs ▸ List.mem_cons_self)
  rw [hcs, List.cons_append] at h hdigits
  rw [pyInt, h, hcs, List.cons_append, ← hdigits]
  split
  · rename_i heq
    exact absurd (List.cons.inj heq).1 (ne_of_isDigit hc rfl)
  · rename_i heq
    exact absurd (List.cons.inj heq).1 (ne_of_isDigit hc rfl)
  · simp only [Nat.reduceEqDiff, if_false, pyNat_cons (ne_of_isDigit hc rfl)]
    split
    · rfl
    · cases pyDigits I 10 0 (c :: (ds ++ rest)) <;> rfl

theorem pyInt_numeral (n : Numeral) :
    pyInt I 10 n.chars =
      if n.chars.length ≤ I.maxStrDigits then some (n.value : ℤ) else none := by
  have hstrip : stripBy (isIntSpace I) n.chars = n.chars ++ [] := by
    rw [stripBy_eq_self fun c hc => isIntSpace_of_isDigit (n.digits c hc), List.append_nil]
  have hfilter : n.chars.filter (· ≠ '_') = n.chars :=
    List.filter_eq_self.mpr fun c hc => decide_eq_true (ne_of_isDigit (n.digits c hc) rfl)
  rw [pyInt_of_strip hstrip, List.append_nil, hfilter]
  by_cases hlen : n.chars.length ≤ I.maxStrDigits
  · rw [if_pos hlen, if_neg (not_lt.mpr hlen)]
    rfl
  · rw [if_neg hlen, if_pos (not_le.mp hlen)]

/-- A sign behind the number. -/
theorem pyInt_sign (n : Numeral) (hs : s = '-' ∨ s = '+') :
    pyInt I 10 (n.chars ++ s :: rest) = none := by
  have hspace : isIntSpace I s = false := by
    obtain rfl | rfl := hs <;> rfl
  rw [pyInt_of_strip (stripBy_append n.ne
    (fun c hc => isIntSpace_of_isDigit (n.digits c hc)) hspace), pyDigits_sign hs]
  split <;> rfl

end

/-! ## What `parse_version` makes of a version -/

/-- The numbers that `int()` reads. -/
def readNumerals (I : Interpreter) (ns : List Numeral) : Option (List ℤ) :=
  if ns.all (·.chars.length ≤ I.maxStrDigits) then some (ns.map fun n => (n.value : ℤ)) else none

section
variable {I : Interpreter} {s : Char} {rest : List Char} {ns : List Numeral}

theorem mapM_pyInt (ns : List Numeral) :
    (ns.map (·.chars)).mapM (pyInt I 10) = readNumerals I ns := by
  induction ns with
  | nil => rfl
  | cons n ns ih =>
    rw [List.map_cons, List.mapM_cons, ih, pyInt_numeral, readNumerals, readNumerals, List.all_cons]
    by_cases hn : n.chars.length ≤ I.maxStrDigits
    · rw [if_pos hn, decide_eq_true hn, Bool.true_and]
      split <;> rfl
    · rw [if_neg hn, decide_eq_false hn, Bool.false_and]
      rfl

theorem not_mem_numeral (n : Numeral) (h : s.isDigit = false) : s ∉ n.chars := fun hs =>
  absurd (n.digits s hs) (by rw [h]; nofun)

/-- Splitting leaves the beginning of the last component together. -/
theorem splitBy_append (n : Numeral) (hs : s ≠ '.') :
    ∃ piece pieces, splitBy '.' (n.chars ++ s :: rest) = (n.chars ++ s :: piece) :: pieces := by
  have happend : ∀ cs : List Char, '.' ∉ cs →
      ∃ piece pieces, splitBy '.' (cs ++ s :: rest) = (cs ++ s :: piece) :: pieces := by
    intro cs hcs
    induction cs with
    | nil =>
      obtain ⟨piece, pieces, h⟩ := List.exists_cons_of_ne_nil (List.splitOn_ne_nil '.' rest)
      refine ⟨piece, pieces, ?_⟩
      rw [splitBy, List.nil_append, List.splitOn_cons_eq_if_modifyHead, h,
        if_neg (by simpa using hs)]
      rfl
    | cons c cs ih =>
      obtain ⟨piece, pieces, h⟩ := ih fun hmem => hcs (List.mem_cons_of_mem c hmem)
      refine ⟨piece, pieces, ?_⟩
      have hc : c ≠ '.' := fun hc => hcs (hc ▸ List.mem_cons_self)
      rw [splitBy] at h
      rw [splitBy, List.cons_append, List.splitOn_cons_eq_if_modifyHead, h,
        if_neg (by simpa using hc)]
      rfl
  exact happend n.chars (not_mem_numeral n rfl)

/-- A component with a sign behind its number. -/
theorem mapM_sign (n : Numeral) (hs : s = '-' ∨ s = '+') :
    (splitBy '.' (n.chars ++ s :: rest)).mapM (pyInt I 10) = none := by
  have hdot : s ≠ '.' := by
    obtain rfl | rfl := hs <;> decide
  obtain ⟨piece, pieces, h⟩ := splitBy_append n hdot
  rw [h, List.mapM_cons, pyInt_sign n hs]
  rfl

/-- A list of numbers with a sign behind the last one. -/
theorem mapM_numerals_sign (hne : ns ≠ []) (hs : s = '-' ∨ s = '+') :
    (splitBy '.' (['.'].intercalate (ns.map (·.chars)) ++ s :: rest)).mapM (pyInt I 10) = none := by
  induction ns with
  | nil => exact absurd rfl hne
  | cons n ns ih =>
    cases ns with
    | nil =>
      rw [List.map_singleton, List.intercalate_singleton]
      exact mapM_sign n hs
    | cons m ns =>
      rw [List.map_cons, List.map_cons, List.intercalate_cons_cons, List.append_assoc,
        List.append_assoc, List.singleton_append, splitBy,
        List.splitOn_append_cons_self_of_not_mem (not_mem_numeral n rfl), List.mapM_cons]
      rw [List.map_cons, splitBy] at ih
      rw [ih (List.cons_ne_nil m ns)]
      cases pyInt I 10 n.chars <;> rfl

theorem mem_intercalate {c : Char} (h : c ∈ ['.'].intercalate (ns.map (·.chars))) :
    c = '.' ∨ c.isDigit = true := by
  induction ns with
  | nil => cases h
  | cons n ns ih =>
    cases ns with
    | nil =>
      rw [List.map_singleton, List.intercalate_singleton] at h
      exact .inr (n.digits c h)
    | cons m ns =>
      rw [List.map_cons, List.map_cons, List.intercalate_cons_cons, List.append_assoc,
        List.singleton_append] at h
      rcases List.mem_append.mp h with h | h
      · exact .inr (n.digits c h)
      · rcases List.mem_cons.mp h with h | h
        · exact .inl h
        · exact ih h

theorem intercalate_ne_nil (hne : ns ≠ []) : ['.'].intercalate (ns.map (·.chars)) ≠ [] := by
  match ns, hne with
  | [n], _ =>
    rw [List.map_singleton, List.intercalate_singleton]
    exact n.ne
  | n :: m :: ns, _ =>
    rw [List.map_cons, List.map_cons, List.intercalate_cons_cons, List.append_assoc]
    exact List.append_ne_nil_of_left_ne_nil n.ne _

theorem splitBy_numerals (h : ns ≠ []) :
    splitBy '.' (['.'].intercalate (ns.map (·.chars))) = ns.map (·.chars) := by
  refine List.splitOn_intercalate '.' (fun l hl => ?_) (List.map_eq_nil_iff.not.mpr h)
  obtain ⟨n, _, rfl⟩ := List.mem_map.mp hl
  exact not_mem_numeral n rfl

end

/-! ## Versions that a device reports -/

/-- A version: null, empty, a list of numbers or a semantic version, the last two with or without a
leading `v`. -/
inductive Reported where
  | null
  | empty
  | dotted (v : Bool) (numerals : List Numeral) (ne : numerals ≠ [])
  | semantic (v : Bool) (version : Version)

namespace Reported

/-- A text with or without a leading `v`. -/
def withV (v : Bool) (cs : List Char) : List Char := if v then 'v' :: cs else cs

def text : Reported → Option String
  | null => none
  | empty => some ""
  | dotted v ns _ => some (String.ofList (withV v (['.'].intercalate (ns.map (·.chars)))))
  | semantic v version => some (String.ofList (withV v version.chars))

/-- The version is older than the release: null and the empty version are older than everything. -/
def Precedes (latest : Version) : Reported → Prop
  | null => True
  | empty => True
  | dotted _ ns _ => precede (ns.map (·.value)) latest.core = true
  | semantic _ version => version.Precedes latest

/-- The numbers of a version that has nothing but numbers, each short enough for `int()`. -/
def numbers? (limit : ℕ) : Reported → Option (List ℕ)
  | null => none
  | empty => none
  | dotted _ ns _ => if ns.all (·.chars.length ≤ limit) then some (ns.map (·.value)) else none
  | semantic _ version =>
    if version.isRelease && version.numerals.all (·.chars.length ≤ limit) then some version.core
    else none

end Reported

section
variable {E : Env} {latest : Version} {s : Char} {cs rest : List Char} {ns : List Numeral}

theorem stripV (v : Bool) (cs : List Char) :
    stripBy (· = 'v') (Reported.withV v cs) = stripBy (· = 'v') cs := by
  cases v with
  | false => rfl
  | true => exact stripBy_cons (decide_eq_true rfl)

theorem parseVersion_of_ne (h : cs ≠ []) : parseVersion E (some (String.ofList cs)) =
    ((splitBy '.' (stripBy (· = 'v') cs)).mapM (pyInt E.interpreter 10)).getD [0, 0, 0] := by
  have hne : String.ofList cs ≠ "" := by
    intro hempty
    exact h (String.ofList_injective hempty)
  rw [parseVersion, if_neg hne, String.toList_ofList]

theorem withV_ne_nil (v : Bool) (h : cs ≠ []) : Reported.withV v cs ≠ [] := by
  cases v with
  | false => exact h
  | true => exact List.cons_ne_nil _ _

theorem not_v {c : Char} (h : c ∈ ['.'].intercalate (ns.map (·.chars))) :
    decide (c = 'v') = false := by
  rcases mem_intercalate h with rfl | h
  · rfl
  · exact decide_eq_false (ne_of_isDigit h rfl)

/-- A list of numbers is read number by number. -/
theorem parseVersion_numerals (v : Bool) (hne : ns ≠ []) :
    parseVersion E (some
      (String.ofList (Reported.withV v (['.'].intercalate (ns.map (·.chars)))))) =
      (readNumerals E.interpreter ns).getD [0, 0, 0] := by
  rw [parseVersion_of_ne (withV_ne_nil v (intercalate_ne_nil hne)), stripV,
    stripBy_eq_self fun c hc => not_v hc, splitBy_numerals hne, mapM_pyInt]

/-- A suffix makes `int()` raise. -/
theorem parseVersion_sign (v : Bool) (hne : ns ≠ []) (hs : s = '-' ∨ s = '+') :
    parseVersion E (some (String.ofList
      (Reported.withV v (['.'].intercalate (ns.map (·.chars)) ++ s :: rest)))) = [0, 0, 0] := by
  have hsign : decide (s = 'v') = false := by
    obtain rfl | rfl := hs <;> rfl
  have hnil : ['.'].intercalate (ns.map (·.chars)) ++ s :: rest ≠ [] :=
    List.append_ne_nil_of_right_ne_nil _ (List.cons_ne_nil s rest)
  rw [parseVersion_of_ne (withV_ne_nil v hnil), stripV,
    stripBy_append (intercalate_ne_nil hne) (fun c hc => not_v hc) hsign, mapM_numerals_sign hne hs]
  rfl

theorem readNumerals_eq (I : Interpreter) (ns : List Numeral) : readNumerals I ns =
    (if ns.all (·.chars.length ≤ I.maxStrDigits) then some (ns.map (·.value)) else none).map
      (·.map Int.ofNat) := by
  rw [readNumerals]
  split
  · rw [Option.map_some, List.map_map]
    rfl
  · rfl

/-- **What `parse_version` reads**: the numbers, or 0.0.0. -/
theorem parseVersion_text (r : Reported) : parseVersion E r.text =
    ((r.numbers? E.interpreter.maxStrDigits).getD [0, 0, 0]).map Int.ofNat := by
  cases r with
  | null => rfl
  | empty => rfl
  | dotted v ns hne =>
    rw [Reported.text, parseVersion_numerals v hne, readNumerals_eq, Reported.numbers?]
    split <;> rfl
  | semantic v version =>
    have hne : version.numerals ≠ [] := List.cons_ne_nil _ _
    rw [Reported.text, Reported.numbers?, Version.chars]
    cases hrelease : version.isRelease with
    | true =>
      rw [Version.suffix_of_isRelease hrelease, List.append_nil, parseVersion_numerals v hne,
        readNumerals_eq, Bool.true_and, Version.core]
      split <;> rfl
    | false =>
      obtain ⟨s, rest, hsuffix, hs⟩ := Version.suffix_of_not_isRelease hrelease
      rw [hsuffix, parseVersion_sign v hne hs]
      rfl

/-- Tuples compare as their numbers do, and a proper prefix is less. -/
theorem tupleLt_iff (as bs : List ℕ) : tupleLt (as.map Int.ofNat) (bs.map Int.ofNat) = true ↔
    precede as bs = true ∨ same as bs = true ∧ as.length < bs.length := by
  induction as generalizing bs with
  | nil =>
    cases bs with
    | nil => simp [tupleLt, precede]
    | cons b bs =>
      refine iff_of_true rfl ?_
      rcases precede_or_same_nil (b :: bs) with h | h
      · exact .inl h
      · exact .inr ⟨h, Nat.succ_pos _⟩
  | cons a as ih =>
    cases bs with
    | nil => simp [tupleLt, precede]
    | cons b bs =>
      rw [List.map_cons, List.map_cons, tupleLt, precede, same]
      by_cases hab : a = b
      · rw [if_pos (congrArg Int.ofNat hab), ih bs]
        simp [hab]
      · rw [if_neg fun h : Int.ofNat a = Int.ofNat b => hab (Int.ofNat.inj h)]
        simp [hab]

end

/-! ## When an update is offered -/

/-- `is_update_available`, for any latest version. -/
def isUpdateAvailable (E : Env) (current latest : Option String) : Bool :=
  tupleLt (parseVersion E current) (parseVersion E latest)

/-- A release: three numbers that `int()` reads. -/
structure Release (I : Interpreter) where
  version : Version
  isRelease : version.isRelease = true
  fits : ∀ n ∈ version.numerals, n.chars.length ≤ I.maxStrDigits

namespace Release

variable {I : Interpreter}

def text (latest : Release I) : String := String.ofList latest.version.chars

end Release

/-- Versions on which `is_update_available` is right. One that has nothing but numbers is not a
shorter way to write the latest version; any other is treated as 0.0.0, so it has to be older than
the latest version, or not to be when that is 0.0.0. -/
def Comparable {I : Interpreter} (latest : Release I) (r : Reported) : Prop :=
  match r.numbers? I.maxStrDigits with
  | some ns => ¬ (ns.length < 3 ∧ same ns latest.version.core = true)
  | none => r.Precedes latest.version ↔ latest.version.core ≠ [0, 0, 0]

section
variable {E : Env} {latest : Release E.interpreter} {r : Reported}

theorem parseVersion_release :
    parseVersion E (some latest.text) = latest.version.core.map Int.ofNat := by
  have hread : Reported.numbers? E.interpreter.maxStrDigits (.semantic false latest.version) =
      some latest.version.core := by
    rw [Reported.numbers?, latest.isRelease, Bool.true_and, if_pos]
    exact List.all_eq_true.mpr fun n hn => decide_eq_true (latest.fits n hn)
  have htext := parseVersion_text (E := E) (.semantic false latest.version)
  rw [hread] at htext
  exact htext

theorem precedes_of_numbers {ns : List ℕ} {limit : ℕ} {w : Version}
    (h : r.numbers? limit = some ns) :
    r.Precedes w ↔ precede ns w.core = true := by
  cases r with
  | null => cases h
  | empty => cases h
  | dotted v numerals ne =>
    rw [Reported.numbers?] at h
    split at h
    · cases h
      exact .rfl
    · cases h
  | semantic v version =>
    rw [Reported.numbers?] at h
    split at h
    · rename_i hread
      cases h
      exact Version.precedes_iff_of_isRelease (Bool.and_eq_true_iff.mp hread).1
    · cases h

/-- 0.0.0 is older than every other release. -/
theorem precede_zero (v : Version) : precede [0, 0, 0] v.core = true ↔ v.core ≠ [0, 0, 0] := by
  show precede [0, 0, 0] [v.major.value, v.minor.value, v.patch.value] = true ↔ _
  rw [Ne, ← same_iff_of_length (show v.core.length = [0, 0, 0].length from rfl)]
  simp [precede, same, Version.core, Version.numerals]
  omega

theorem isUpdateAvailable_iff :
    (isUpdateAvailable E r.text (some latest.text) = true ↔ r.Precedes latest.version) ↔
      Comparable latest r := by
  rw [isUpdateAvailable, parseVersion_text, parseVersion_release, tupleLt_iff, Comparable]
  have hlength : latest.version.core.length = 3 := rfl
  rw [hlength]
  cases hr : r.numbers? E.interpreter.maxStrDigits with
  | some ns =>
    rw [precedes_of_numbers hr]
    cases hsame : same ns latest.version.core with
    | true => simp [hsame, precede_eq_false_of_same hsame]
    | false => simp [hsame]
  | none =>
    rw [Option.getD_none, precede_zero]
    simp
    tauto

end

/-! ## The endpoint -/

section
variable {E : Env} {w : World} {credentials : String} {u d : Uuid} {user : User} {device : Device}
variable {draws : Draws} {ota : OtaUpdateCheckResponse}

/-- A member is told whether an update is available. -/
theorem checkOtaUpdate_body (hu : Authenticated E credentials u user w)
    (hm : DeviceMember d u device w) (hbody : (serve E
      (.user credentials (.checkOtaUpdate d) draws) w).1.body = .ota ota) :
    ota.updateAvailable =
      isUpdateAvailable E device.firmwareVersion (some latestFirmwareVersion) := by
  revert hbody
  refine serve_ends (P := fun response _ => response.body = .ota ota → _) ?_
  refine getCurrentUser_ends rfl (fun t hnone => (hnone u user hu).elim) fun t u' user' ht hu' => ?_
  obtain ⟨rfl, rfl⟩ := hu.unique hu'
  refine assertDeviceMember_ends ht (fun t hnone => (hnone device hm).elim) fun t device' ht hm' =>
    ?_
  obtain rfl : device = device' := Option.some.inj (hm.1.symm.trans hm'.1)
  simp only [Handler.bind_apply]
  rw [isUpdateAvailable]
  generalize tupleLt (parseVersion E device.firmwareVersion)
    (parseVersion E (some latestFirmwareVersion)) = available
  have hdone (url : Option String) : Served
      (fun response _ => response.body = .ota ota → ota.updateAvailable = available)
      (.ok (⟨200, .ota ⟨d, device.firmwareVersion, latestFirmwareVersion, available, url⟩, []⟩, []))
      t w := by
    intro hbody
    cases hbody
    rfl
  cases available with
  | false => exact hdone none
  | true =>
    rw [downloadUrl, if_pos rfl, generatePresignedUrl]
    cases E.presignedUrl firmwareObjectKey E.cfg.otaPresignedUrlExpirySeconds with
    | none => exact fun hbody => nomatch hbody
    | some url => exact hdone (some url)

/-- **When `update_available` is right**: exactly for the comparable versions, for every release and
in the response of the endpoint. -/
theorem update_available_iff (latest : Release E.interpreter) (r : Reported) :
    ((isUpdateAvailable E r.text (some latest.text) = true ↔ r.Precedes latest.version) ↔
      Comparable latest r) ∧
    ∀ (w : World) (credentials : String) (u d : Uuid) (user : User) (device : Device)
      (draws : Draws) (ota : OtaUpdateCheckResponse), Authenticated E credentials u user w →
      DeviceMember d u device w → device.firmwareVersion = r.text →
      latestFirmwareVersion = latest.text →
      (serve E (.user credentials (.checkOtaUpdate d) draws) w).1.body = .ota ota →
      ((ota.updateAvailable = true ↔ r.Precedes latest.version) ↔ Comparable latest r) := by
  refine ⟨isUpdateAvailable_iff, ?_⟩
  intro w credentials u d user device draws ota hu hm hversion hlatest hbody
  rw [checkOtaUpdate_body hu hm hbody, hversion, hlatest]
  exact isUpdateAvailable_iff

end

/-! ## Firmware of device 7 -/

namespace Sample

def numeral (cs : List Char) (h : cs ≠ [] ∧ cs.all Char.isDigit = true) : Numeral :=
  ⟨cs, h.1, List.all_eq_true.mp h.2⟩

def zero : Numeral := numeral ['0'] (by decide)

def one : Numeral := numeral ['1'] (by decide)

def two : Numeral := numeral ['2'] (by decide)

/-- 2.0.0, the release of the source. -/
def latest : Release env.interpreter where
  version := ⟨two, zero, zero, by simp [Numeral.Canonical, two, zero, numeral], [], []⟩
  isRelease := rfl
  fits := by decide

/-- 2.1.0-beta -/
def beta : Version where
  major := two
  minor := one
  patch := zero
  canonical := by simp [Numeral.Canonical, two, one, zero, numeral]
  pre := [.alphanumeric ['b', 'e', 't', 'a'] (List.all_eq_true.mp rfl) ⟨'b', .head _, rfl⟩]
  build := []

/-- 2.0.0+1 -/
def build : Version where
  major := two
  minor := zero
  patch := zero
  canonical := by simp [Numeral.Canonical, two, zero, numeral]
  pre := []
  build := [⟨['1'], List.cons_ne_nil _ _, List.all_eq_true.mp rfl⟩]

/-- Device 7 has reported a version. -/
def running (version : String) : World :=
  { deviceWorld with
    db := { deviceWorld.db with
      devices := Table.empty.insert 7 ⟨"uid", "f", "bin", false, some version, 0⟩ } }

def otaResponse (version : String) : OtaUpdateCheckResponse :=
  ⟨7, some version, "2.0.0", true, some firmwareObjectKey⟩

/-- Alice asks whether there is an update for device 7. -/
def ota : Request := .user (jwtEncode ⟨1, .access, 0, 0, 0⟩) (.checkOtaUpdate 7) (draws 0)

end Sample

/-- A device that runs 1.0.0. -/
theorem oneZeroZero_available_iff :
    let r := Reported.dotted false [Sample.one, Sample.zero, Sample.zero] (by decide)
    (((Sample.otaResponse "1.0.0").updateAvailable = true ↔ r.Precedes Sample.latest.version) ↔
      Comparable Sample.latest r) :=
  (update_available_iff Sample.latest (.dotted false [Sample.one, Sample.zero, Sample.zero]
    (by decide))).2 (Sample.running "1.0.0") (Sample.jwtEncode ⟨1, .access, 0, 0, 0⟩) 1 7
    (Sample.user "alice@rawbin.io") _ (Sample.draws 0) _
    ⟨⟨1, .access, 1, 0, 0⟩, rfl, rfl, rfl, rfl, rfl⟩ ⟨rfl, rfl⟩ rfl (by decide) rfl

/-- 2.0 and 2.0.0+1 are offered a reinstallation, 2.1.0-beta is offered a downgrade. -/
theorem notOlder_offered :
    let offered (version : String) (r : Reported) :=
      r.text = some version ∧ ¬ r.Precedes Sample.latest.version ∧
        (serve Sample.env Sample.ota (Sample.running version)).1.body =
          .ota (Sample.otaResponse version)
    offered "2.0" (.dotted false [Sample.two, Sample.zero] (by decide)) ∧
      offered "2.0.0+1" (.semantic false Sample.build) ∧
      offered "2.1.0-beta" (.semantic false Sample.beta) := by
  refine ⟨⟨rfl, by rw [Reported.Precedes]; decide, rfl⟩, ⟨rfl, ?_, rfl⟩, rfl, ?_, rfl⟩
  · rintro (h | ⟨_, h⟩)
    · revert h
      decide
    · exact h
  · rintro (h | ⟨h, _⟩)
    · revert h
      decide
    · revert h
      decide

end Rawbin
