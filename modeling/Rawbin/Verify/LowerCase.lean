import Rawbin.Api.Emails

/-!
# Lower-case text

`str.lower` and `str.strip`, as far as the checks of emails and of device responses depend on them.
The laws about characters outside ASCII are facts of the Unicode database.
-/

namespace Rawbin

/-! ## Characters -/

theorem toLower_cases (c : Char) : (c.toLower = c ∧ ¬ (65 ≤ c.toNat ∧ c.toNat ≤ 90)) ∨
    (65 ≤ c.toNat ∧ c.toNat ≤ 90 ∧ c.toLower.toNat = c.toNat + 32) := by
  have hiff : (c.val ≥ 'A'.val ∧ c.val ≤ 'Z'.val) ↔ 65 ≤ c.toNat ∧ c.toNat ≤ 90 :=
    and_congr UInt32.le_iff_toNat_le UInt32.le_iff_toNat_le
  by_cases h : c.val ≥ 'A'.val ∧ c.val ≤ 'Z'.val
  · obtain ⟨hlo, hhi⟩ := hiff.mp h
    refine .inr ⟨hlo, hhi, ?_⟩
    have hlower : c.toLower.val = c.val + 32 := congrArg Char.val (dif_pos h)
    show c.toLower.val.toNat = c.val.toNat + 32
    rw [hlower]
    have hval : c.val.toNat ≤ 90 := hhi
    rw [UInt32.toNat_add]
    exact Nat.mod_eq_of_lt (by simp; omega)
  · exact .inl ⟨dif_neg h, mt hiff.mpr h⟩

theorem isAscii_iff {c : Char} : isAscii c = true ↔ c.toNat < 128 := by
  rw [isAscii, decide_eq_true_iff, UInt32.lt_iff_toNat_lt]
  exact Iff.rfl

theorem isAscii_toLower {c : Char} (h : isAscii c = true) : isAscii c.toLower = true := by
  rw [isAscii_iff] at h ⊢
  rcases toLower_cases c with ⟨hc, _⟩ | ⟨_, _, hc⟩
  · rw [hc]
    exact h
  · omega

theorem toLower_toLower (c : Char) : c.toLower.toLower = c.toLower := by
  rcases toLower_cases c with ⟨hc, _⟩ | ⟨_, _, hc⟩
  · rw [hc, hc]
  · rcases toLower_cases c.toLower with ⟨hc', _⟩ | ⟨_, _, _⟩
    · exact hc'
    · omega

theorem isSpace_toLower {c : Char} (h : isSpace c = false) : isSpace c.toLower = false := by
  rcases toLower_cases c with ⟨hc, _⟩ | ⟨_, _, hc⟩
  · rw [hc]
    exact h
  · simp only [isSpace, hc, Bool.or_eq_false_iff, Bool.and_eq_false_iff, decide_eq_false_iff_not]
    omega

/-! ## Trimmed text -/

/-- Neither the first nor the last character is one that is stripped. -/
structure Trimmed (p : Char → Bool) (cs : List Char) : Prop where
  first : ∀ c rest, cs = c :: rest → p c = false
  last : ∀ rest c, cs = rest ++ [c] → p c = false

section
variable {p : Char → Bool} {cs : List Char}

theorem stripBy_eq (p : Char → Bool) (cs : List Char) :
    stripBy p cs = (cs.dropWhile p).rdropWhile p := rfl

theorem stripBy_trimmed (p : Char → Bool) (cs : List Char) : Trimmed p (stripBy p cs) where
  first c rest h := by
    obtain ⟨tail, htail⟩ := List.rdropWhile_prefix p (cs.dropWhile p)
    rw [← stripBy_eq, h, List.cons_append] at htail
    have hne : cs.dropWhile p ≠ [] := by
      rw [← htail]
      exact List.cons_ne_nil _ _
    have hhead := List.head_dropWhile_not p hne
    simp only [← htail, List.head_cons] at hhead
    exact hhead
  last rest c h := by
    have hne : (cs.dropWhile p).rdropWhile p ≠ [] := by
      rw [← stripBy_eq, h]
      exact List.append_ne_nil_of_right_ne_nil _ (List.cons_ne_nil _ _)
    have hlast := List.rdropWhile_last_not p (cs.dropWhile p) hne
    simp only [← stripBy_eq, h, List.getLast_append_singleton, Bool.not_eq_true] at hlast
    exact hlast

theorem stripBy_of_trimmed (h : Trimmed p cs) : stripBy p cs = cs := by
  have hfirst : cs.dropWhile p = cs := by
    cases cs with
    | nil => rfl
    | cons c rest => exact List.dropWhile_cons_of_neg (Bool.eq_false_iff.mp (h.first c rest rfl))
  rw [stripBy_eq, hfirst, List.rdropWhile_eq_self_iff]
  intro hne
  have hlast := h.last cs.dropLast (cs.getLast hne) (List.dropLast_append_getLast hne).symm
  exact Bool.eq_false_iff.mp hlast

end

/-! ## Lower-case forms -/

section
variable (C : Crypto)

/-- What a character becomes. -/
def lowerForm (before : List Char) (c : Char) (after : List Char) : List Char :=
  if isAscii c then [c.toLower] else C.lowerUnicode before c after

/-- The character is its own lower-case form, wherever it stands. -/
def LowerChar (c : Char) : Prop := ∀ before after, lowerForm C before c after = [c]

/-- What the results rely on of the lower-case forms of characters outside ASCII. -/
structure Crypto.LowerCase : Prop where
  lower : ∀ b c a, isAscii c = false → ∀ d ∈ C.lowerUnicode b c a, LowerChar C d
  ne_nil : ∀ b c a, isAscii c = false → C.lowerUnicode b c a ≠ []
  space : ∀ b c a, isAscii c = false → isSpace c = false →
    ∀ d ∈ C.lowerUnicode b c a, isSpace d = false
  /-- No form depends on what is on the other side of an `@`. -/
  before : ∀ b b' c a, C.lowerUnicode (b ++ '@' :: b') c a = C.lowerUnicode b' c a
  after : ∀ b c a a', C.lowerUnicode b c (a ++ '@' :: a') = C.lowerUnicode b c a

variable {C} {before cs xs ys : List Char} {c d : Char}

theorem lowerFrom_cons :
    lowerFrom C before (c :: cs) = lowerForm C before c cs ++ lowerFrom C (before ++ [c]) cs := rfl

theorem lowerFrom_snoc (before cs : List Char) (c : Char) : ∃ front,
    lowerFrom C before (cs ++ [c]) = front ++ lowerForm C (before ++ cs) c [] := by
  induction cs generalizing before with
  | nil => exact ⟨[], by rw [List.nil_append, lowerFrom_cons, lowerFrom, List.append_nil,
      List.append_nil, List.nil_append]⟩
  | cons x cs ih =>
    obtain ⟨front, hfront⟩ := ih (before ++ [x])
    refine ⟨lowerForm C before x (cs ++ [c]) ++ front, ?_⟩
    rw [List.cons_append, lowerFrom_cons, hfront, List.append_assoc, List.append_assoc,
      List.singleton_append]

theorem lowerFrom_of_lower (h : ∀ c ∈ cs, LowerChar C c) : lowerFrom C before cs = cs := by
  induction cs generalizing before with
  | nil => rfl
  | cons c cs ih =>
    rw [lowerFrom_cons, h c List.mem_cons_self, ih fun c hc => h c (List.mem_cons_of_mem _ hc)]
    rfl

theorem lowerChar_toLower (h : isAscii c = true) : LowerChar C c.toLower := by
  intro b a
  rw [lowerForm, if_pos (isAscii_toLower h), toLower_toLower]

theorem mem_lowerFrom (h : d ∈ lowerFrom C before cs) :
    ∃ b c a, c ∈ cs ∧ d ∈ lowerForm C b c a := by
  induction cs generalizing before with
  | nil => cases h
  | cons c cs ih =>
    rw [lowerFrom_cons, List.mem_append] at h
    rcases h with h | h
    · exact ⟨_, c, _, List.mem_cons_self, h⟩
    · obtain ⟨b, c', a, hc, hd⟩ := ih h
      exact ⟨b, c', a, List.mem_cons_of_mem _ hc, hd⟩

namespace Crypto.LowerCase

variable (hC : C.LowerCase)
include hC

theorem form_lower {b a : List Char} (h : d ∈ lowerForm C b c a) : LowerChar C d := by
  rw [lowerForm] at h
  split at h
  · rw [List.mem_singleton.mp h]
    exact lowerChar_toLower ‹_›
  · exact hC.lower b c a (Bool.eq_false_iff.mpr ‹_›) d h

theorem form_ne_nil (b : List Char) (c : Char) (a : List Char) : lowerForm C b c a ≠ [] := by
  rw [lowerForm]
  split
  · exact List.cons_ne_nil _ _
  · exact hC.ne_nil b c a (Bool.eq_false_iff.mpr ‹_›)

theorem form_space {b a : List Char} (hc : isSpace c = false) (h : d ∈ lowerForm C b c a) :
    isSpace d = false := by
  rw [lowerForm] at h
  split at h
  · rw [List.mem_singleton.mp h]
    exact isSpace_toLower hc
  · exact hC.space b c a (Bool.eq_false_iff.mpr ‹_›) hc d h

/-- Lower-case text is its own lower-case form, in every part. -/
theorem mem_lower (h : d ∈ lowerFrom C before cs) : LowerChar C d := by
  obtain ⟨b, c, a, _, hd⟩ := mem_lowerFrom h
  exact hC.form_lower hd

theorem trimmed (h : Trimmed isSpace cs) : Trimmed isSpace (lowerFrom C before cs) where
  first d rest hd := by
    cases cs with
    | nil => cases hd
    | cons c cs =>
      rw [lowerFrom_cons] at hd
      obtain ⟨d', form, hform⟩ := List.exists_cons_of_ne_nil (hC.form_ne_nil before c cs)
      rw [hform, List.cons_append] at hd
      obtain ⟨rfl, _⟩ := List.cons.inj hd
      exact hC.form_space (h.first c cs rfl) (hform ▸ List.mem_cons_self)
  last rest d hd := by
    rcases List.eq_nil_or_concat cs with rfl | ⟨cs', c, rfl⟩
    · exact absurd hd (by simp [lowerFrom])
    · obtain ⟨front, hfront⟩ := lowerFrom_snoc (C := C) before cs' c
      have hne := hC.form_ne_nil (before ++ cs') c []
      rw [List.concat_eq_append, hfront, ← List.dropLast_append_getLast hne,
        ← List.append_assoc] at hd
      have hlast := List.append_inj_right' hd rfl
      rw [← List.cons.inj hlast |>.1]
      exact hC.form_space (h.last cs' c (List.concat_eq_append ..)) (List.getLast_mem hne)

/-- What is before an `@` does not matter. -/
theorem lowerFrom_before (b b' cs : List Char) :
    lowerFrom C (b ++ '@' :: b') cs = lowerFrom C b' cs := by
  induction cs generalizing b' with
  | nil => rfl
  | cons c cs ih =>
    have hform : lowerForm C (b ++ '@' :: b') c cs = lowerForm C b' c cs := by
      rw [lowerForm, lowerForm, hC.before]
    rw [lowerFrom_cons, lowerFrom_cons, hform, List.append_assoc, List.cons_append, ih]

theorem lowerFrom_at (before xs ys : List Char) :
    lowerFrom C before (xs ++ '@' :: ys) = lowerFrom C before xs ++ '@' :: lowerFrom C [] ys := by
  induction xs generalizing before with
  | nil =>
    have hat : lowerForm C before '@' ys = ['@'] := rfl
    rw [List.nil_append, lowerFrom_cons, hat, hC.lowerFrom_before, lowerFrom]
    rfl
  | cons x xs ih =>
    have hform : lowerForm C before x (xs ++ '@' :: ys) = lowerForm C before x xs := by
      rw [lowerForm, lowerForm, hC.after]
    rw [List.cons_append, lowerFrom_cons, lowerFrom_cons, hform, ih, List.append_assoc]

end Crypto.LowerCase

end

end Rawbin
