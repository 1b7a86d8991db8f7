import Mathlib.Logic.Equiv.Basic
import Bookkeeping.Proofs.Passwords
import Bookkeeping.Proofs.TwinCalls
import Bookkeeping.Proofs.Upholding

/-! # Renamed passwords

Passwords decide nothing but whether candidates fit. If all passwords of a run of calls are renamed,
so that different ones stay different, then every answer is the same but for the hash in it, every
failure is the same, and the same is logged. This is so although the hashes that are stored are
others.
-/

namespace Bookkeeping

/-- A renaming of passwords: different ones stay different, and valid ones valid, the empty one empty
and long ones too long. -/
structure Renaming (f : String → String) : Prop where
  injective : Function.Injective f
  valid : ∀ s, ValidPassword s → ValidPassword (f s)
  empty : f "" = ""
  long : ∀ s, Check.maxPassword < (Text.bytes s).length → Check.maxPassword < (Text.bytes (f s)).length

theorem Renaming.eq_empty {f : String → String} (hf : Renaming f) {s : String} :
    f s = "" ↔ s = "" := by
  rw [← hf.injective.eq_iff (a := s), hf.empty]

/-- To exchange two valid passwords is a renaming. -/
theorem Renaming.swap {a b : String} (ha : ValidPassword a) (hb : ValidPassword b) :
    Renaming (Equiv.swap a b) where
  injective := (Equiv.swap a b).injective
  valid s hs := by
    rw [Equiv.swap_apply_def]
    split_ifs
    exacts [hb, ha, hs]
  empty := Equiv.swap_apply_of_ne_of_ne ha.nonempty.symm hb.nonempty.symm
  long s hs := by
    rwa [Equiv.swap_apply_of_ne_of_ne] <;> rintro rfl
    exacts [absurd ha.short (not_le.2 hs), absurd hb.short (not_le.2 hs)]

/-- A password under a renaming. What is no text is no password. -/
def Value.renamed (f : String → String) (v : Value) : Value :=
  match v.text? with
  | some s => .text (f s)
  | none => v

@[simp] theorem Value.renamed_text {f : String → String} {v : Value} {s : String}
    (h : v.text? = some s) : v.renamed f = .text (f s) := by
  rw [Value.renamed, h]

@[simp] theorem Value.renamed_none {f : String → String} {v : Value} (h : v.text? = none) :
    v.renamed f = v := by
  rw [Value.renamed, h]

theorem Value.truthy_of_text {v : Value} {s : String} (h : v.text? = some s) :
    v.truthy = (s != "") := by
  cases v with
  | text t =>
    cases h
    rfl
  | kind k =>
    cases h
    cases k <;> decide
  | _ => cases h

/-- A text is checked as a password whatever kind of text it is. -/
theorem Check.password_of_text {v : Value} {s : String} (h : v.text? = some s) :
    Check.password v = Check.password (.text s) := by
  cases v <;> first | (cases h; rfl) | cases h

/-- Passwords that are too long are all refused for the same reason. -/
theorem Check.password_long :
    ∃ e, ∀ s, maxPassword < (Text.bytes s).length → Check.password (.text s) = .error e := by
  refine ⟨.rejected (.outside "password" s!"must be at most {maxPassword} bytes" .null),
    fun s hs => ?_⟩
  have hne : (s == "") = false := by
    rw [beq_eq_false_iff_ne]
    rintro rfl
    exact absurd hs (by decide)
  have hgiven : Check.given "password" (.text s) = .ok (.text s) := rfl
  simp [Check.password, hgiven, Value.text?, hne, hs, bind, Except.bind, Check.reject]

namespace Service

open Store

/-! ## Runs -/

/-- The passwords that calls are given, to keep or to check. -/
def PasswordsOf (calls : List Call) (s : String) : Prop :=
  ∃ c ∈ calls, ∃ v ∈ c.newPasswords ++ c.candidates, v.text? = some s

/-- A call whose passwords are renamed. -/
def Call.renamed (f : String → String) (c : Call) : Call := c.withPasswords (Value.renamed f)

/-- The passwords of a renamed call are those of the call, renamed. -/
theorem Call.passwords_renamed (f : String → String) (c : Call) :
    (c.renamed f).newPasswords ++ (c.renamed f).candidates
      = (c.newPasswords ++ c.candidates).map (Value.renamed f) := by
  cases c <;> rfl

/-- An answer without the hashes in it. -/
def Answer.shown : Answer → Answer
  | user r => user (r.map fun r => r.rehashed "")
  | users rs => users (rs.map fun r => r.rehashed "")
  | a => a

end Service

/-- What comes of calls that are made one after the other. -/
def Store.Session.answers (s : Store.Session) : List Service.Call → List (Except Failure Service.Answer)
  | [] => []
  | c :: rest => (c.run.exec s).1 :: (c.run.exec s).2.answers rest

namespace Service

open Store

theorem Answer.Twin.shown_eq {p : Pairing} {a b : Answer} (h : Answer.Twin p a b) :
    b.shown = a.shown := by
  cases h with
  | same => rfl
  | user hr =>
    cases hr
    rfl

section

variable {f : String → String} {used : String → Prop} {g g' : PasswordScheme}

/-- Hashes of passwords in use stand for hashes of the renamed passwords. -/
def Pairing.ofRenaming (hf : Renaming f) (hg : g.Faithful used)
    (hg' : g'.Faithful fun s => ∃ q, used q ∧ f q = s) : Pairing where
  left := g
  right := g'
  Paired _ h k := ∃ q n n', used q ∧ ValidPassword q ∧ h = g.hash n q ∧ k = g'.hash n' (f q)
  read := by
    rintro _ _ _ ⟨q, n, n', hu, hq, rfl, rfl⟩
    exact ⟨hg.read hu hq n, hg'.read ⟨q, hu, rfl⟩ (hf.valid q hq) n'⟩

variable (hf : Renaming f) (hg : g.Faithful used)
  (hg' : g'.Faithful fun s => ∃ q, used q ∧ f q = s)

/-- The check of new passwords does not tell a password from its new name. -/
theorem newPasswords_renamed {v : Value} (hv : ∀ s, v.text? = some s → used s) :
    NewPasswords (Pairing.ofRenaming hf hg hg') v (v.renamed f) := by
  unfold NewPasswords
  cases ht : v.text? with
  | none =>
    rw [Value.renamed_none ht]
    cases hp : Check.password v with
    | error e => exact .error e
    | ok s =>
      rw [(Check.password_ok.1 hp).1] at ht
      cases ht
  | some s =>
    rw [Value.renamed_text ht, Check.password_of_text ht]
    by_cases hempty : s = ""
    · subst hempty
      rw [hf.empty]
      exact .error _
    · by_cases hshort : (Text.bytes s).length ≤ Check.maxPassword
      · have hs : ValidPassword s := ⟨hempty, hshort⟩
        rw [Check.password_ok.2 ⟨rfl, hs⟩, Check.password_ok.2 ⟨rfl, hf.valid s hs⟩]
        exact .ok fun _ n n' => ⟨s, n, n', hv s ht, hs, rfl, rfl⟩
      · obtain ⟨e, he⟩ := Check.password_long
        rw [he s (not_le.1 hshort), he (f s) (hf.long s (not_le.1 hshort))]
        exact .error e

/-- A candidate fits the hash of a password as its new name fits that of the new name. -/
theorem candidates_renamed {v : Value} (hv : ∀ s, v.text? = some s → used s) :
    Candidates (Pairing.ofRenaming hf hg hg') v (v.renamed f) := by
  cases ht : v.text? with
  | none =>
    rw [Value.renamed_none ht]
    exact ⟨rfl, fun _ => ht ▸ .none⟩
  | some s =>
    rw [Value.renamed_text ht]
    refine ⟨?_, fun htrue => ?_⟩
    · rw [Value.truthy_of_text ht, Value.truthy_of_text (v := .text (f s)) rfl, bne, bne,
        Bool.eq_iff_iff]
      simp [hf.eq_empty]
    · rw [ht]
      have hne : s ≠ "" := by simpa [Value.truthy_of_text ht] using htrue
      refine .some ?_
      rintro _ _ _ ⟨q, n, n', hu, hq, rfl, rfl⟩
      have hleft := hg.fits hu (hv s ht) hq hne n
      have hright := hg'.fits ⟨q, hu, rfl⟩ ⟨s, hv s ht, rfl⟩ (hf.valid q hq)
        (fun h => hne (hf.eq_empty.1 h)) n'
      rw [Bool.eq_iff_iff]
      exact hright.trans (hf.injective.eq_iff.trans hleft.symm)

/-- A run of calls comes to the same with other names for the passwords. -/
theorem run_renamed {calls : List Call} (hused : ∀ s, PasswordsOf calls s → used s) {s t : Session}
    (hst : s.Twin (Pairing.ofRenaming hf hg hg') t) :
    (t.answers (calls.map (.renamed f))).map (Except.map Answer.shown)
        = (s.answers calls).map (Except.map Answer.shown) ∧
      (t.after (calls.map (.renamed f))).log = (s.after calls).log := by
  induction calls generalizing s t with
  | nil => exact ⟨rfl, hst.log⟩
  | cons c rest ih =>
    have hof {v : Value} (hv : v ∈ c.newPasswords ++ c.candidates) (x : String)
        (hx : v.text? = some x) : used x := hused x ⟨c, List.mem_cons_self, v, hv, hx⟩
    obtain ⟨hanswer, hstate⟩ := c.twin
      (fun v hv => newPasswords_renamed hf hg hg' (hof (List.mem_append_left _ hv)))
      (fun v hv => candidates_renamed hf hg hg' (hof (List.mem_append_right _ hv))) s t hst
    have hshown : Except.map Answer.shown ((c.renamed f).run.exec t).1
        = Except.map Answer.shown (c.run.exec s).1 := by
      change Matches _ _ ((c.renamed f).run.exec t).1 at hanswer
      generalize (c.run.exec s).1 = x at hanswer ⊢
      generalize ((c.renamed f).run.exec t).1 = y at hanswer ⊢
      cases hanswer with
      | ok h => exact congrArg Except.ok h.shown_eq
      | error e => rfl
    obtain ⟨hanswers, hlog⟩ := ih (fun x hx => hused x (by
      obtain ⟨d, hd, h⟩ := hx
      exact ⟨d, List.mem_cons_of_mem c hd, h⟩)) hstate
    exact ⟨congrArg₂ List.cons hshown hanswers, hlog⟩

end

/-- Passwords influence nothing but whether candidates fit: after they are renamed, every call of a
run has the same answer but for hashes, or fails in the same way, and the same events are logged.
The sessions of the two runs may keep passwords in different ways, under different salts. -/
theorem passwords_unseen {f : String → String} (hf : Renaming f) {s : Session}
    (hd : s.Holds (· = .migrated)) (calls : List Call) (scheme : PasswordScheme) (salts : Nat)
    (hg : s.scheme.Faithful (PasswordsOf calls))
    (hg' : scheme.Faithful (PasswordsOf (calls.map (.renamed f)))) :
    (({ s with scheme, salts } : Session).answers (calls.map (.renamed f))).map
        (Except.map Answer.shown) = (s.answers calls).map (Except.map Answer.shown) ∧
      (({ s with scheme, salts } : Session).after (calls.map (.renamed f))).log
        = (s.after calls).log := by
  have hnames : ∀ x, (∃ q, PasswordsOf calls q ∧ f q = x) → PasswordsOf (calls.map (.renamed f)) x := by
    rintro _ ⟨q, ⟨c, hc, v, hv, hq⟩, rfl⟩
    refine ⟨c.renamed f, List.mem_map_of_mem hc, v.renamed f, ?_, by rw [Value.renamed_text hq]; rfl⟩
    rw [Call.passwords_renamed]
    exact List.mem_map_of_mem hv
  refine run_renamed hf hg (hg'.mono hnames) (fun _ h => h) ?_
  have hstanding {p : Pairing} : s.standing.Twin p s.standing := by
    cases hs : s.standing with
    | outside => exact .outside
    | bereft => exact .bereft
    | inside db =>
      rw [hd.before db hs]
      exact .inside Database.twin_migrated
  refine ⟨?_, rfl, rfl, rfl, rfl, rfl, hstanding, rfl, rfl, .refl _, rfl, rfl⟩
  rw [hd.now]
  exact Database.twin_migrated

/-- Of a user who registers, mistypes a password and changes it, nothing but the hash tells which of
two passwords it was. -/
theorem passwords_unseen_after_change :
    let f := Equiv.swap "secret" "hidden"
    let s := { newSession with scheme := .marked }
    let calls := [registration, .verifyCredentials (.text "ann") (.text "secret"),
      .changePassword (.int 1) (.text "hidden") (.text "other"),
      .changePassword (.int 1) (.text "secret") (.text "other")]
    let renamed : List Call := calls.map (.renamed f)
    Renaming f ∧ s.Holds (· = .migrated) ∧
      s.scheme.Faithful (PasswordsOf calls) ∧ s.scheme.Faithful (PasswordsOf renamed) ∧
      (s.answers renamed).map (Except.map Answer.shown) = (s.answers calls).map (Except.map Answer.shown) ∧
      (s.after renamed).log = (s.after calls).log ∧
      ((s.after (renamed.take 1)).database.ledger.users.rows.map (·.data.passwordHash)
        ≠ (s.after (calls.take 1)).database.ledger.users.rows.map (·.data.passwordHash)) := by
  intro f s calls renamed
  have hf : Renaming f := .swap ⟨by decide, by decide⟩ ⟨by decide, by decide⟩
  have hg : s.scheme.Faithful (PasswordsOf calls) :=
    PasswordScheme.faithful_marked.mono fun _ _ => trivial
  have hg' : s.scheme.Faithful (PasswordsOf renamed) :=
    PasswordScheme.faithful_marked.mono fun _ _ => trivial
  have hd : s.Holds (· = .migrated) := Session.holds_of_outside rfl rfl
  obtain ⟨hanswers, hlog⟩ := passwords_unseen hf hd calls .marked s.salts hg hg'
  exact ⟨hf, hd, hg, hg', hanswers, hlog, by decide +kernel⟩

end Service

end Bookkeeping
