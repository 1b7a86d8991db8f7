import Bookkeeping.Proofs.Hashes

/-! # Passwords

A password is kept if it is not empty and not too long. Of a scheme it is assumed that its hashes
can be kept as they are, and that among the passwords in use a candidate fits the hash of a password
only if it is that password. The hashes of the ledger are of this kind, as long as no two of the
passwords in use have the same hash.
-/

namespace Bookkeeping

/-- A password that can be kept. -/
structure ValidPassword (s : String) : Prop where
  nonempty : s ≠ ""
  short : (Text.bytes s).length ≤ Check.maxPassword

/-- Passwords pass their check as they are. -/
theorem Check.password_ok {v : Value} {s : String} :
    Check.password v = .ok s ↔ v.text? = some s ∧ ValidPassword s := by
  cases hv : v.text? with
  | none =>
    refine iff_of_false (fun h => ?_) (by simp)
    obtain ⟨w, hw, h⟩ := Service.except_bind_ok_iff.1 h
    unfold Check.given at hw
    split at hw
    · cases hw
    · cases hw
      simp only [hv] at h
      cases h
  | some t =>
    have hgiven : Check.given "password" v = .ok v := by
      cases v <;> first | rfl | cases hv
    simp only [Check.password, hgiven, hv, bind, Except.bind, beq_iff_eq, Option.some.injEq]
    split
    · rename_i hempty
      refine iff_of_false (by simp [Check.reject]) ?_
      rintro ⟨rfl, hs⟩
      exact hs.nonempty hempty
    · rename_i hne
      split
      · rename_i hlong
        refine iff_of_false (by simp [Check.reject]) ?_
        rintro ⟨rfl, hs⟩
        exact absurd hs.short (not_le.2 hlong)
      · rename_i hshort
        rw [Except.ok.injEq]
        exact ⟨fun h => ⟨h, h ▸ ⟨hne, not_lt.1 hshort⟩⟩, And.left⟩

/-! ## Schemes -/

/-- A scheme that keeps the passwords in use as texts that are read as they are. Such a text fits no
other valid password in use, and nothing that is too long. -/
structure PasswordScheme.Faithful (g : PasswordScheme) (used : String → Prop) : Prop where
  compact : g.Compact
  read {q : String} (hu : used q) (hq : ValidPassword q) (n : Nat) :
    Part.boundedText 0 (.text (g.hash n q)) = .ok (g.hash n q)
  check {q c : String} (hu : used q) (hu' : used c) (hq : ValidPassword q) (hc : ValidPassword c)
    (n : Nat) : g.check (g.hash n q) c = true ↔ c = q
  refuses {q c : String} (hu : used q) (hq : ValidPassword q)
    (hc : Check.maxPassword < (Text.bytes c).length) (n : Nat) : g.check (g.hash n q) c = false

namespace PasswordScheme.Faithful

variable {g : PasswordScheme} {used used' : String → Prop}

theorem mono (h : g.Faithful used) (hsub : ∀ s, used' s → used s) : g.Faithful used' where
  compact := h.compact
  read hu := h.read (hsub _ hu)
  check hu hu' := h.check (hsub _ hu) (hsub _ hu')
  refuses hu := h.refuses (hsub _ hu)

/-- A candidate that is not empty fits the hash of one password only. -/
theorem fits (h : g.Faithful used) {q c : String} (hu : used q) (hu' : used c)
    (hq : ValidPassword q) (hc : c ≠ "") (n : Nat) : g.check (g.hash n q) c = true ↔ c = q := by
  by_cases hshort : (Text.bytes c).length ≤ Check.maxPassword
  · exact h.check hu hu' hq ⟨hc, hshort⟩ n
  · rw [h.refuses hu hq (not_le.1 hshort) n]
    refine iff_of_false (by simp) ?_
    rintro rfl
    exact hshort hq.short

end PasswordScheme.Faithful

/-- A text that neither starts nor ends with white space is kept as it is. -/
theorem Text.trim_eq_self {s : String} (hhead : ∀ c ∈ s.toList.head?, isWhite c = false)
    (hlast : ∀ c ∈ s.toList.getLast?, isWhite c = false) : trim s = s := by
  rw [trim, cutEnds, dropWhile_eq_self hhead, dropWhile_eq_self, List.reverse_reverse,
    String.ofList_toList]
  rwa [List.head?_reverse]

/-- A scheme that keeps a password as it is, between two marks. -/
def PasswordScheme.marked : PasswordScheme where
  hash _ password := "$" ++ password ++ "$"
  check hash candidate := decide ((Text.bytes candidate).length ≤ Check.maxPassword)
    && hash == "$" ++ candidate ++ "$"

theorem PasswordScheme.faithful_marked : marked.Faithful fun _ => True := by
  have hlist (n : Nat) (q : String) : (marked.hash n q).toList = '$' :: (q.toList ++ ['$']) := by
    simp [marked]
  have hlength : marked.Compact := by
    intro n q hq
    have hq' := (Text.length_le_bytes q).trans hq
    have hmax : Check.maxPassword + 2 ≤ Part.maxName := by decide
    rw [← String.length_toList, hlist]
    simp only [List.length_cons, List.length_append, List.length_nil, String.length_toList]
    omega
  refine ⟨hlength, fun {q} _ hq n => ?_, fun {q c} _ _ hq hc n => ?_, fun _ _ hc _ => ?_⟩
  · have htrim : Text.trim (marked.hash n q) = marked.hash n q := by
      refine Text.trim_eq_self ?_ ?_
      · rw [hlist]
        rintro _ ⟨⟩
        decide
      · rw [hlist, ← List.cons_append, List.getLast?_append]
        rintro _ ⟨⟩
        decide
    exact Part.boundedText_ok.2 ⟨_, rfl, htrim.symm, Nat.zero_le _, hlength n q hq.short⟩
  · simp only [marked, hc.short, decide_true, Bool.true_and, beq_iff_eq]
    constructor
    · intro h
      have hsame := congrArg String.toList h
      simp only [String.toList_append] at hsame
      exact (String.toList_inj.1 (List.append_cancel_left (List.append_cancel_right hsame))).symm
    · rintro rfl
      rfl
  · simp [marked, not_le.2 hc]

namespace Hash

/-! ## The hashes of the ledger -/

/-- The characters of the alphabet stand for their places. -/
theorem idxOf_sixBits (n : Nat) : alphabet.idxOf? (sixBits n) = some (n % 64) := by
  have hplaces : ∀ m < 64, alphabet.idxOf? (alphabet[m]?.getD '.') = some m := by decide +kernel
  exact hplaces _ (Nat.mod_lt n (by decide))

theorem isWhite_sixBits (n : Nat) : Text.isWhite (sixBits n) = false := by
  have hplaces : ∀ m < 64, Text.isWhite (alphabet[m]?.getD '.') = false := by decide +kernel
  exact hplaces _ (Nat.mod_lt n (by decide))

theorem isWhite_encode {bytes : List Nat} : ∀ c ∈ encode bytes, Text.isWhite c = false := by
  induction bytes using encode.induct with
  | case1 => simp [encode]
  | case2 a => simp [encode, isWhite_sixBits]
  | case3 a b => simp [encode, isWhite_sixBits]
  | case4 a b c rest ih => simpa [encode, isWhite_sixBits] using ih

theorem decode_encode {bytes : List Nat} (h : ∀ b ∈ bytes, b < 256) :
    decode? (encode bytes) = some bytes := by
  induction bytes using encode.induct with
  | case1 => rfl
  | case2 a =>
    have ha := h a (by simp)
    simp only [encode, decode?, idxOf_sixBits, Option.bind_eq_bind, Option.bind_some,
      Option.some.injEq, List.cons.injEq, and_true]
    omega
  | case3 a b =>
    have ha := h a (by simp)
    have hb := h b (by simp)
    simp only [encode, decode?, idxOf_sixBits, Option.bind_eq_bind, Option.bind_some,
      Option.some.injEq, List.cons.injEq, and_true]
    omega
  | case4 a b c rest ih =>
    have ha := h a (by simp)
    have hb := h b (by simp)
    have hc := h c (by simp)
    simp only [encode, decode?, idxOf_sixBits, Option.bind_eq_bind, Option.bind_some,
      ih fun x hx => h x (by simp [hx]), Option.some.injEq, List.cons.injEq, and_true]
    omega

/-- The characters of a cost of two digits. -/
def costDigits (cost : Nat) : List Char := [Char.ofNat (48 + cost / 10), Char.ofNat (48 + cost % 10)]

/-- The header of a hash is read as it was written. -/
theorem header_version : ∀ cost < 32, 4 ≤ cost →
    (header version cost).toList = ['$', '2', 'b', '$'] ++ costDigits cost ++ ['$'] ∧
      (header version cost).toList.all (!Text.isWhite ·) = true ∧
      (costDigits cost).all Char.isDigit = true ∧
      (costDigits cost).foldl (fun n c => n * 10 + (c.toNat - 48)) 0 = cost := by
  decide +kernel

section

variable {cost : Nat} (hleast : 4 ≤ cost) (hmost : cost < 32) (n : Nat) (password : String)

include hleast hmost

/-- A hash that was made shows what it was made with. -/
theorem parts_make : parts? (make version cost (saltOf n) password)
    = some (version, cost, saltOf n) := by
  obtain ⟨hheader, -, hdigits, hcost⟩ := header_version cost hmost hleast
  have hsalt : decode? (encode (saltOf n)) = some (saltOf n) := by
    refine decode_encode fun b hb => ?_
    obtain ⟨i, -, rfl⟩ := List.mem_map.1 hb
    exact Nat.mod_lt _ (by decide)
  have hlength : (encode (saltOf n)).length = 22 := by rw [length_encode]; simp [saltOf]
  have hall := length_make (show cost < 100 by omega) n password
  rw [← String.length_toList] at hall
  generalize hrest : encode ((digest (Cipher.schedule cost (wordsOf (saltOf n)).toArray
    (keyOf password)) plain).take 23) = rest
  obtain ⟨tens, ones, hpair⟩ : ∃ tens ones, costDigits cost = [tens, ones] := ⟨_, _, rfl⟩
  rw [hpair] at hheader hdigits hcost
  have hlist : (make version cost (saltOf n) password).toList
      = '$' :: '2' :: 'b' :: '$' :: tens :: ones :: '$' :: (encode (saltOf n) ++ rest) := by
    simp [make, hheader, hrest]
  have hstart : (header version cost).toList.isPrefixOf
      ('$' :: '2' :: 'b' :: '$' :: tens :: ones :: '$' :: (encode (saltOf n) ++ rest)) = true := by
    rw [hheader]
    simp
  rw [hlist] at hall
  have htake : (encode (saltOf n) ++ rest).take 22 = encode (saltOf n) := List.take_left' hlength
  have hversion : String.ofList ['2', 'b'] = version := rfl
  simp only [List.all_cons, List.all_nil, Bool.and_true, List.foldl_cons, List.foldl_nil,
    Nat.zero_mul, Nat.zero_add] at hdigits hcost
  simp only [parts?, hlist, List.drop_succ_cons, List.drop_zero, List.take_succ_cons, List.take_zero,
    hdigits, hcost, htake, hsalt, hversion, hall, hstart]
  simp [versions, version, hleast, show cost ≤ 31 by omega]

/-- A hash that was made is kept as it is. -/
theorem read_make : Part.boundedText 0 (.text (make version cost (saltOf n) password))
    = .ok (make version cost (saltOf n) password) := by
  obtain ⟨-, hheader, -⟩ := header_version cost hmost hleast
  have hlength := length_make (show cost < 100 by omega) n password
  have hwhite : ∀ c ∈ (make version cost (saltOf n) password).toList, Text.isWhite c = false := by
    intro c hc
    rw [make, String.toList_append, String.toList_ofList] at hc
    rcases List.mem_append.1 hc with hc | hc
    · simpa using List.all_eq_true.1 hheader c hc
    · exact (List.mem_append.1 hc).elim (isWhite_encode c) (isWhite_encode c)
  have htrim : Text.trim (make version cost (saltOf n) password)
      = make version cost (saltOf n) password :=
    Text.trim_eq_self (fun c hc => hwhite c (List.mem_of_mem_head? hc))
      fun c hc => hwhite c (List.mem_of_mem_getLast? hc)
  exact Part.boundedText_ok.2 ⟨_, rfl, htrim.symm, Nat.zero_le _, by rw [hlength]; decide⟩

omit n password in
/-- The scheme of the ledger is faithful if no two valid passwords in use have the same hash. -/
theorem faithful_scheme {used : String → Prop} (hfree : ∀ n q c, used q → used c →
    ValidPassword q → ValidPassword c →
    make version cost (saltOf n) c = make version cost (saltOf n) q → c = q) :
    (scheme cost).Faithful used where
  compact := compact_scheme (by omega)
  read {q} _ _ n := read_make hleast hmost n q
  check {q c} hu hu' hq hc n := by
    have hshort : ¬ maxBytes < (Text.bytes c).length := not_lt.2 hc.short
    show check (make version cost (saltOf n) q) c = true ↔ c = q
    rw [check, if_neg hshort, parts_make hleast hmost]
    simp only [beq_iff_eq]
    exact ⟨hfree n q c hu hu' hq hc, fun h => h ▸ rfl⟩
  refuses {q c} _ _ hc n := by
    show check (make version cost (saltOf n) q) c = false
    rw [check, if_pos (show maxBytes < _ from hc)]

end

end Hash

end Bookkeeping
