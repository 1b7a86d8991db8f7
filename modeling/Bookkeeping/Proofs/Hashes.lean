import Bookkeeping.Password.Hash
import Bookkeeping.Proofs.Readability

/-! # The length of password hashes

What is kept for a password is read like any other text of an account, so it must not be longer than
a name may be. The hashes of the ledger have 60 characters, whatever the password.
-/

namespace Bookkeeping

/-- A scheme that keeps passwords as texts that are no longer than names. -/
def PasswordScheme.Compact (scheme : PasswordScheme) : Prop :=
  ∀ n password, (Text.bytes password).length ≤ Check.maxPassword →
    (scheme.hash n password).length ≤ Part.maxName

/-- A text has at least as many bytes as characters. -/
theorem Text.length_le_bytes (s : String) : s.length ≤ (Text.bytes s).length := by
  have hchar (c : Char) : 1 ≤ (Text.charBytes c).length := by
    unfold Text.charBytes
    dsimp only
    split_ifs <;> simp
  have hchars (cs : List Char) : cs.length ≤ (cs.flatMap Text.charBytes).length := by
    induction cs with
    | nil => simp
    | cons c cs ih =>
      rw [List.flatMap_cons, List.length_append, List.length_cons]
      have := hchar c
      omega
  rw [← String.length_toList]
  exact hchars s.toList

theorem Text.length_trim_le (s : String) : (Text.trim s).length ≤ s.length := by
  have hcut (p : Char → Bool) (cs : List Char) : (cs.dropWhile p).length ≤ cs.length :=
    (List.dropWhile_sublist p).length_le
  rw [Text.trim, Text.cutEnds, String.length_ofList, List.length_reverse, ← String.length_toList]
  refine (hcut _ _).trans ?_
  rw [List.length_reverse]
  exact hcut _ _

theorem Check.password_short {v : Value} {p : String} (h : Check.password v = .ok p) :
    (Text.bytes p).length ≤ Check.maxPassword := by
  obtain ⟨w, -, h⟩ := Service.except_bind_ok_iff.1 h
  split at h
  · cases h
  · split at h
    · cases h
    · split at h
      · cases h
      · cases h
        omega

/-- A short hash can be read as it is kept. -/
theorem PasswordScheme.Compact.read {scheme : PasswordScheme} (h : scheme.Compact) {n : Nat}
    {v : Value} {p : String} (hp : Check.password v = .ok p) :
    ∃ k, Part.boundedText 0 (.text (scheme.hash n p)) = .ok k :=
  ⟨_, Part.boundedText_ok.2 ⟨_, rfl, rfl, Nat.zero_le _,
    (Text.length_trim_le _).trans (h n p (Check.password_short hp))⟩⟩

namespace Hash

theorem length_encode (bytes : List Nat) :
    (encode bytes).length = (bytes.length * 4 + 2) / 3 := by
  induction bytes using encode.induct with
  | case1 => rfl
  | case2 a => simp [encode]
  | case3 a b => simp [encode]
  | case4 a b c rest ih =>
    simp only [encode, List.length_cons, ih]
    omega

theorem length_digest (t : Cipher.Tables) (words : List UInt32) :
    (digest t words).length = words.length / 2 * 8 := by
  fun_induction digest t words with
  | case1 a b rest l r _ ih =>
    simp only [bytesOf, List.length_append, List.length_cons, List.length_nil, ih]
    omega
  | case2 words hshort =>
    match words, hshort with
    | [], _ => simp
    | [a], _ => simp
    | a :: b :: rest, hshort => exact absurd rfl (hshort a b rest)

theorem length_header : ∀ cost < 100, (header version cost).length = 7 := by decide +kernel

/-- Hashes have 60 characters at every cost of at most two digits. -/
theorem length_make {cost : Nat} (hcost : cost < 100) (n : Nat) (password : String) :
    (make version cost (saltOf n) password).length = 60 := by
  have hplain : plain.length = 6 := by decide +kernel
  rw [make, String.length_append, length_header cost hcost, String.length_ofList,
    List.length_append, length_encode, length_encode, List.length_take, length_digest, hplain]
  simp [saltOf]

theorem compact_scheme {cost : Nat} (hcost : cost < 100) : (scheme cost).Compact := by
  intro n password _
  show (make version cost (saltOf n) password).length ≤ _
  rw [length_make hcost]
  decide

end Hash

end Bookkeeping
