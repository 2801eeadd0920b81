import Rawbin.Backend
import Rawbin.Verify.LowerCase

/-!
# The response of a device

`verify_device_hmac` lower-cases the response of a client and hands it to `compare_digest`, which
takes only ASCII text. A response with other characters makes it raise, unless they all have
lower-case forms in ASCII or the secret does not decrypt.
-/

namespace Rawbin

/-- The digits that `hexdigest()` writes. -/
def isHexDigit (c : Char) : Bool :=
  (48 ≤ c.toNat && c.toNat ≤ 57) || (97 ≤ c.toNat && c.toNat ≤ 102)

/-- What the results rely on: digests are written in these digits, and the lower-case form of a
character outside ASCII does not consist of them. -/
structure Crypto.HexDigest (C : Crypto) : Prop where
  digest : ∀ key msg, ∀ c ∈ (C.hmacSha256 key msg).toList, isHexDigit c = true
  lower : ∀ b c a, isAscii c = false → ∃ d ∈ C.lowerUnicode b c a, isHexDigit d = false

/-- The check returns a boolean, which is true iff the secret decrypts and the response is the
digest of the nonce, in upper or lower case. -/
def ChecksDigest (C : Crypto) (secretEnc nonce response : String) : Prop :=
  ∃ b, verifyDeviceHmac C secretEnc nonce response = .ok b ∧
    (b = true ↔ ∃ secret, decryptDeviceSecret C secretEnc = some secret ∧
      response.toLower = (computeDeviceHmac C secret nonce).toLower)

section
variable {C : Crypto} {c : Char} {cs : List Char} {before : List Char}

theorem isHexDigit_iff : isHexDigit c = true ↔
    (48 ≤ c.toNat ∧ c.toNat ≤ 57) ∨ (97 ≤ c.toNat ∧ c.toNat ≤ 102) := by
  simp only [isHexDigit, Bool.or_eq_true, Bool.and_eq_true, decide_eq_true_eq]

theorem isAscii_of_isHexDigit (h : isHexDigit c = true) : isAscii c = true := by
  rw [isHexDigit_iff] at h
  rw [isAscii_iff]
  omega

theorem toLower_of_isHexDigit (h : isHexDigit c = true) : c.toLower = c := by
  rw [isHexDigit_iff] at h
  rcases toLower_cases c with ⟨hc, _⟩ | ⟨_, _, _⟩
  · exact hc
  · omega

/-- Lower-casing a letter of ASCII does not lead into ASCII from outside. -/
theorem isAscii_of_toLower (h : isAscii c.toLower = true) : isAscii c = true := by
  rcases toLower_cases c with ⟨hc, _⟩ | ⟨_, _, _⟩
  · rwa [hc] at h
  · rw [isAscii_iff]
    omega

theorem lowerFrom_of_ascii (h : ∀ c ∈ cs, isAscii c = true) :
    lowerFrom C before cs = cs.map Char.toLower := by
  induction cs generalizing before with
  | nil => rfl
  | cons c cs ih =>
    rw [lowerFrom_cons, lowerForm, if_pos (h c List.mem_cons_self),
      ih fun c hc => h c (List.mem_cons_of_mem _ hc)]
    rfl

/-- The lower-case form of a text contains that of each of its characters. -/
theorem lowerForm_mem (before : List Char) (hc : c ∈ cs) :
    ∃ b a, ∀ d ∈ lowerForm C b c a, d ∈ lowerFrom C before cs := by
  induction cs generalizing before with
  | nil => cases hc
  | cons x cs ih =>
    rw [lowerFrom_cons]
    rcases List.mem_cons.mp hc with rfl | hc
    · exact ⟨_, _, fun d hd => List.mem_append_left _ hd⟩
    · obtain ⟨b, a, h⟩ := ih (before ++ [x]) hc
      exact ⟨b, a, fun d hd => List.mem_append_right _ (h d hd)⟩

/-- Text whose lower-case form consists of hexadecimal digits is in ASCII. -/
theorem Crypto.HexDigest.ascii_of_lowerFrom (hC : C.HexDigest)
    (h : ∀ d ∈ lowerFrom C before cs, isHexDigit d = true) : ∀ c ∈ cs, isAscii c = true := by
  intro c hc
  by_contra hascii
  obtain ⟨b, a, hform⟩ := lowerForm_mem (C := C) before hc
  rw [lowerForm, if_neg hascii] at hform
  obtain ⟨d, hd, hhex⟩ := hC.lower b c a (Bool.eq_false_iff.mpr hascii)
  cases hhex.symm.trans (h d (hform d hd))

/-- Against a digest, `str.lower` accepts what the lower-case letters of ASCII do. -/
theorem Crypto.HexDigest.lower_eq_iff (hC : C.HexDigest) {digest : String}
    (h : ∀ d ∈ digest.toList, isHexDigit d = true) (response : String) :
    digest = pyLower C response ↔ response.toLower = digest := by
  have hlower : response.toLower.toList = response.toList.map Char.toLower := String.toList_map
  constructor
  · intro heq
    have hhex : ∀ d ∈ lowerFrom C [] response.toList, isHexDigit d = true := by
      intro d hd
      refine h d ?_
      rw [heq, pyLower, String.toList_ofList]
      exact hd
    have hascii := hC.ascii_of_lowerFrom hhex
    rw [heq, pyLower, lowerFrom_of_ascii hascii, ← hlower, String.ofList_toList]
  · intro heq
    have hascii : ∀ c ∈ response.toList, isAscii c = true := by
      intro c hc
      refine isAscii_of_toLower (isAscii_of_isHexDigit (h _ ?_))
      rw [← heq, hlower]
      exact List.mem_map_of_mem hc
    rw [pyLower, lowerFrom_of_ascii hascii, ← hlower, String.ofList_toList, heq]

/-- **Responses of devices.** The check returns a boolean, and the right one, iff the secret does
not decrypt or the lower-case form of the response is in ASCII. -/
theorem verifyDeviceHmac_checks (hC : C.HexDigest) (secretEnc nonce response : String) :
    ChecksDigest C secretEnc nonce response ↔ decryptDeviceSecret C secretEnc = none ∨
      (pyLower C response).toList.all isAscii = true := by
  rw [ChecksDigest, verifyDeviceHmac]
  cases hsecret : decryptDeviceSecret C secretEnc with
  | none =>
    refine iff_of_true ⟨false, rfl, iff_of_false nofun ?_⟩ (.inl rfl)
    rintro ⟨_, ⟨⟩, _⟩
  | some secret =>
    have hhex := hC.digest secret nonce
    have hlower : pyLower C (computeDeviceHmac C secret nonce) =
        computeDeviceHmac C secret nonce := by
      rw [pyLower, computeDeviceHmac, lowerFrom_of_ascii fun c hc =>
        isAscii_of_isHexDigit (hhex c hc),
        List.map_congr_left fun c hc => toLower_of_isHexDigit (hhex c hc), List.map_id',
        String.ofList_toList]
    have hdigest := (hC.lower_eq_iff hhex _).mp hlower.symm
    have hascii : (computeDeviceHmac C secret nonce).toList.all isAscii = true :=
      List.all_eq_true.mpr fun c hc => isAscii_of_isHexDigit (hhex c hc)
    simp only [compareDigest, hlower, hascii, Bool.true_and, reduceCtorEq, false_or]
    cases hall : (pyLower C response).toList.all isAscii with
    | false => exact iff_of_false (fun ⟨_, herror, _⟩ => nomatch herror) nofun
    | true =>
      refine iff_of_true ⟨_, rfl, ?_⟩ rfl
      rw [decide_eq_true_iff, computeDeviceHmac, hC.lower_eq_iff hhex]
      constructor
      · exact fun heq => ⟨secret, rfl, heq.trans hdigest.symm⟩
      · rintro ⟨_, ⟨⟩, heq⟩
        exact heq.trans hdigest

end

namespace Sample

/-- Digests are hexadecimal, and letters outside ASCII are left alone. -/
def hexCrypto : Crypto :=
  { crypto with
    hmacSha256 := fun key msg =>
      String.ofList ((key ++ msg).toList.map fun c => if isHexDigit c then c else '0') }

theorem hexCrypto_hexDigest : hexCrypto.HexDigest where
  digest key msg c hc := by
    simp only [hexCrypto, String.toList_ofList, List.mem_map] at hc
    obtain ⟨d, _, rfl⟩ := hc
    split
    · assumption
    · rfl
  lower b c a hc := by
    refine ⟨c, List.mem_singleton_self c, Bool.eq_false_iff.mpr fun hhex => ?_⟩
    cases hc.symm.trans (isAscii_of_isHexDigit hhex)

end Sample

/-- A response in capital letters. -/
theorem capitals_checked : ChecksDigest Sample.hexCrypto "fcafe" "1234" "CAFE1234" :=
  (verifyDeviceHmac_checks Sample.hexCrypto_hexDigest _ _ _).mpr (.inr (by decide +kernel))

/-- A response with an accent. -/
theorem accent_raises : ¬ ∀ (C : Crypto) (secretEnc nonce response : String), C.HexDigest →
    ChecksDigest C secretEnc nonce response := by
  intro h
  obtain ⟨b, hb, _⟩ := h Sample.hexCrypto "fcafe" "1234" "café1234" Sample.hexCrypto_hexDigest
  have herror : verifyDeviceHmac Sample.hexCrypto "fcafe" "1234" "café1234" =
      .error .typeError := by
    decide +kernel
  cases herror.symm.trans hb

end Rawbin
