import Mathlib.Data.List.Lex
import Mathlib.Data.Nat.Basic

/-!
# Versions

The grammar and the precedence of Semantic Versioning 2.0.0, and lists of numbers of any length, in
which missing components count as 0.
-/

namespace SemVer

/-! ## Numbers -/

/-- A number as it is written. -/
structure Numeral where
  chars : List Char
  ne : chars ≠ []
  digits : ∀ c ∈ chars, c.isDigit = true

namespace Numeral

/-- The value of the digits behind some others. -/
def valueFrom (n : ℕ) (cs : List Char) : ℕ :=
  cs.foldl (fun n c => n * 10 + (c.toNat - '0'.toNat)) n

def value (n : Numeral) : ℕ := valueFrom 0 n.chars

/-- There are no leading zeros. -/
def Canonical (n : Numeral) : Prop := n.chars.head? = some '0' → n.chars = ['0']

end Numeral

/-! ## Lists of numbers -/

/-- At the first difference the left one is less. -/
def precede : List ℕ → List ℕ → Bool
  | _, [] => false
  | [], b :: bs => 0 < b || precede [] bs
  | a :: as, b :: bs => a < b || (a = b && precede as bs)

/-- There is no difference. -/
def same : List ℕ → List ℕ → Bool
  | as, [] => as.all (· = 0)
  | [], b :: bs => b = 0 && same [] bs
  | a :: as, b :: bs => a = b && same as bs

theorem precede_eq_false_of_same {as bs : List ℕ} (h : same as bs = true) :
    precede as bs = false := by
  induction bs generalizing as with
  | nil => cases as <;> rfl
  | cons b bs ih =>
    cases as with
    | nil =>
      rw [same, Bool.and_eq_true_iff, decide_eq_true_iff] at h
      rw [precede, ih h.2, h.1]
      rfl
    | cons a as =>
      rw [same, Bool.and_eq_true_iff, decide_eq_true_iff] at h
      rw [precede, ih h.2, h.1]
      simp

theorem precede_or_same_nil (bs : List ℕ) : precede [] bs = true ∨ same [] bs = true := by
  induction bs with
  | nil => exact .inr rfl
  | cons b bs ih =>
    rw [precede, same]
    rcases Nat.eq_zero_or_pos b with rfl | hb
    · simpa using ih
    · simp [hb]

theorem same_iff_of_length {as bs : List ℕ} (h : as.length = bs.length) :
    same as bs = true ↔ as = bs := by
  induction bs generalizing as with
  | nil =>
    obtain rfl := List.length_eq_zero_iff.mp h
    exact iff_of_true rfl rfl
  | cons b bs ih =>
    cases as with
    | nil => cases h
    | cons a as =>
      rw [same, Bool.and_eq_true_iff, decide_eq_true_iff, ih (Nat.succ.inj h), List.cons.injEq]

/-! ## Versions -/

def isIdentifierChar (c : Char) : Bool := c.isAlphanum || c = '-'

/-- An identifier of a pre-release. -/
inductive Identifier where
  | numeric (n : Numeral) (canonical : n.Canonical)
  | alphanumeric (chars : List Char) (valid : ∀ c ∈ chars, isIdentifierChar c = true)
    (nonDigit : ∃ c ∈ chars, c.isDigit = false)

namespace Identifier

def chars : Identifier → List Char
  | numeric n _ => n.chars
  | alphanumeric cs _ _ => cs

inductive Precedes : Identifier → Identifier → Prop
  | numeric : n.value < m.value → Precedes (.numeric n hn) (.numeric m hm)
  | kind : Precedes (.numeric n hn) (.alphanumeric cs hcs hcs')
  | alphanumeric : cs < ds → Precedes (.alphanumeric cs hcs hcs') (.alphanumeric ds hds hds')

end Identifier

/-- An identifier of a build. -/
structure BuildIdentifier where
  chars : List Char
  ne : chars ≠ []
  valid : ∀ c ∈ chars, isIdentifierChar c = true

structure Version where
  major : Numeral
  minor : Numeral
  patch : Numeral
  canonical : major.Canonical ∧ minor.Canonical ∧ patch.Canonical
  pre : List Identifier
  build : List BuildIdentifier

namespace Version

variable (v w : Version)

def numerals : List Numeral := [v.major, v.minor, v.patch]

def core : List ℕ := v.numerals.map (·.value)

/-- What follows the three numbers. -/
def suffix : List Char :=
  (if v.pre.isEmpty then [] else '-' :: ['.'].intercalate (v.pre.map (·.chars))) ++
    if v.build.isEmpty then [] else '+' :: ['.'].intercalate (v.build.map (·.chars))

def chars : List Char := ['.'].intercalate (v.numerals.map (·.chars)) ++ v.suffix

def isRelease : Bool := v.pre.isEmpty && v.build.isEmpty

/-- Pre-releases precede the release, and are compared identifier by identifier. -/
def PrePrecedes : List Identifier → List Identifier → Prop
  | [], _ => False
  | _ :: _, [] => True
  | as, bs => List.Lex Identifier.Precedes as bs

/-- The precedence of versions; the build does not matter. -/
def Precedes : Prop :=
  precede v.core w.core = true ∨ v.core = w.core ∧ PrePrecedes v.pre w.pre

variable {v w}

theorem suffix_of_isRelease (h : v.isRelease = true) : v.suffix = [] := by
  rw [isRelease, Bool.and_eq_true_iff] at h
  rw [suffix, if_pos h.1, if_pos h.2, List.append_nil]

/-- A suffix starts with a hyphen or a plus. -/
theorem suffix_of_not_isRelease (h : v.isRelease = false) :
    ∃ c cs, v.suffix = c :: cs ∧ (c = '-' ∨ c = '+') := by
  rw [suffix]
  cases hpre : v.pre.isEmpty with
  | false => exact ⟨'-', _, rfl, .inl rfl⟩
  | true =>
    cases hbuild : v.build.isEmpty with
    | false => exact ⟨'+', _, rfl, .inr rfl⟩
    | true =>
      rw [isRelease, hpre, hbuild] at h
      cases h

theorem precedes_iff_of_isRelease (h : v.isRelease = true) :
    v.Precedes w ↔ precede v.core w.core = true := by
  rw [isRelease, Bool.and_eq_true_iff, List.isEmpty_iff] at h
  rw [Precedes, h.1, PrePrecedes, and_false, or_false]

end Version

end SemVer
