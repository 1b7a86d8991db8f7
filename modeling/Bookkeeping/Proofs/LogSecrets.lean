import Bookkeeping.Proofs.Fillings

/-! # What lines show of secrets

A line is the same for a message and for the message with its secrets concealed, so it does not
depend on them. This asks two things of a message. Redaction does not enter lists within lists, so
no secret may stand there. And the text of a message is filled in before anything is redacted, so it
may not take a secret in.
-/

namespace Bookkeeping.Log

/-! ## Messages -/

namespace Message

/-- A message with the secrets of its fields and its arguments replaced. -/
def concealed (m : Message) : Message :=
  { m with fields := concealFields m.fields, args := concealElements m.args }

/-- Whether the text of a message gives no secret away as it is filled in. -/
def isDiscreet (m : Message) : Bool :=
  match m.event, m.supply with
  | .text s, .ok (some supply) => supply.isDiscreet s
  | _, _ => true

/-- Whether a message shows no secret: redaction reaches those of its fields, and its text gives
none away. -/
def isGuarded (m : Message) : Bool := guardedFields m.fields && m.isDiscreet

end Message

theorem field_conceal {fs : List (String × Value)} {key : String} (h : isSensitive key = false) :
    Value.field (concealFields fs) key = conceal (Value.field fs key) := by
  induction fs with
  | nil => rfl
  | cons f fs ih =>
    obtain ⟨k, v⟩ := f
    simp only [Value.field, concealFields, List.lookup_cons] at ih ⊢
    cases hk : key == k with
    | true =>
      rw [beq_iff_eq] at hk
      subst hk
      rw [h]
      rfl
    | false => exact ih

theorem isNull_conceal (v : Value) : (conceal v).isNull = v.isNull := by
  cases v <;> rfl

theorem isSensitive_argumentsField : isSensitive argumentsField = false := by decide +kernel

theorem isSensitive_recordField : isSensitive recordField = false := by decide +kernel

theorem without_conceal (keys : List String) (fs : List (String × Value)) :
    without keys (concealFields fs) = concealFields (without keys fs) := by
  rw [concealFields_eq_map, concealFields_eq_map, without, without, List.filter_map]
  rfl

theorem dropArguments_conceal (fs : List (String × Value)) :
    dropArguments (concealFields fs) = concealFields (dropArguments fs) := by
  rw [dropArguments, dropArguments, field_conceal isSensitive_argumentsField, isNull_conceal,
    without_conceal]
  split <;> rfl

/-- What is asked of keys only is asked of the same keys. -/
theorem any_concealFields {p : String × Value → Bool} (h : ∀ k v w, p (k, v) = p (k, w))
    (fs : List (String × Value)) : (concealFields fs).any p = fs.any p := by
  induction fs with
  | nil => rfl
  | cons f fs ih =>
    obtain ⟨k, v⟩ := f
    rw [concealFields, List.any_cons, List.any_cons, ih, h k _ v]

theorem guardedFields_without {keys : List String} {fs : List (String × Value)}
    (h : guardedFields fs = true) : guardedFields (without keys fs) = true := by
  rw [guardedFields_iff] at h ⊢
  exact fun f hf => h f (List.mem_filter.1 hf).1

theorem cleanFields_append (fs gs : List (String × Value)) :
    cleanFields (fs ++ gs) = cleanFields fs ++ cleanFields gs := by
  rw [cleanFields_eq_map, cleanFields_eq_map, cleanFields_eq_map, List.map_append]

theorem cleanFields_setField (key : String) (v : Value) (fs : List (String × Value)) :
    cleanFields (Value.setField key v fs)
      = Value.setField key (maskField cleanValue (key, v)).2 (cleanFields fs) := by
  induction fs with
  | nil => rw [cleanFields, Value.setField, Value.setField, cleanFields, cleanFields, maskField]
  | cons f fs ih =>
    obtain ⟨k, w⟩ := f
    rw [cleanFields, Value.setField, Value.setField]
    by_cases hk : (k == key) = true
    · rw [if_pos hk, if_pos hk, cleanFields, beq_iff_eq.1 hk, maskField]
    · rw [if_neg hk, if_neg hk, cleanFields, ih]

theorem cleanFields_conceal {fs : List (String × Value)} (h : guardedFields fs = true) :
    cleanFields (concealFields fs) = cleanFields fs := by
  rw [cleanFields_of_guarded h, cleanFields_of_guarded ((guardedFields_conceal fs).trans h),
    concealFields_concealFields]

namespace Message

variable {m : Message} {s : Setup} {stamp : String}

theorem isEmpty_concealed (vs : List Value) : (concealElements vs).isEmpty = vs.isEmpty := by
  cases vs <;> rfl

theorem supply_concealed (m : Message) :
    m.concealed.supply = m.supply.map (Option.map Supply.concealed) := by
  unfold supply
  simp only [concealed, isEmpty_concealed]
  split
  · rw [field_conceal isSensitive_argumentsField, Supply.ofValue?_conceal]
  · rw [Supply.ofArguments?_conceal]
    rfl

theorem event_concealed (m : Message) : m.concealed.event = m.event := rfl

theorem fields_concealed (m : Message) : m.concealed.fields = concealFields m.fields := rfl

theorem isDiscreet_concealed (m : Message) : m.concealed.isDiscreet = m.isDiscreet := by
  rw [isDiscreet, isDiscreet, event_concealed, supply_concealed]
  cases m.supply with
  | error e => cases m.event <;> rfl
  | ok supply =>
    cases supply with
    | none => cases m.event <;> rfl
    | some supply =>
      cases m.event with
      | text s => exact supply.isDiscreet_concealed s
      | _ => rfl

theorem isGuarded_concealed (m : Message) : m.concealed.isGuarded = m.isGuarded := by
  rw [isGuarded, isGuarded, isDiscreet_concealed, fields_concealed, guardedFields_conceal]

theorem filled_concealed (h : m.isDiscreet = true) : m.concealed.filled = m.filled := by
  rw [isDiscreet] at h
  rw [filled, filled, event_concealed, supply_concealed]
  cases hsupply : m.supply with
  | error e => rfl
  | ok supply =>
    cases supply with
    | none => rfl
    | some supply =>
      cases hevent : m.event with
      | text s =>
        rw [hevent, hsupply] at h
        have hfill : fill s (some supply.concealed) = fill s (some supply) :=
          Supply.fill_concealed h
        show (fill s (some supply.concealed) >>= _) = (fill s (some supply) >>= _)
        rw [hfill]
      | _ => rfl

theorem loggerText_concealed (m : Message) : m.concealed.loggerText = m.loggerText := by
  rw [loggerText, loggerText, fields_concealed, field_conceal isSensitive_recordField]
  cases Value.field m.fields recordField <;> rfl

/-- The fields that a message is written with, but for its text, its logger and its level. -/
theorem cleanFields_own (m : Message) (h : guardedFields m.fields = true) :
    cleanFields (if m.concealed.args.isEmpty then dropArguments m.concealed.fields
        else without [argumentsField] m.concealed.fields)
      = cleanFields (if m.args.isEmpty then dropArguments m.fields
        else without [argumentsField] m.fields) := by
  have hargs : m.concealed.args.isEmpty = m.args.isEmpty := isEmpty_concealed m.args
  rw [hargs, fields_concealed]
  split
  · rw [dropArguments_conceal]
    refine cleanFields_conceal ?_
    rw [dropArguments]
    split
    · exact h
    · exact guardedFields_without h
  · rw [without_conceal]
    exact cleanFields_conceal (guardedFields_without h)

/-- A message that shows no secret is written as if its secrets were replaced already. -/
theorem record_concealed (h : m.isGuarded = true) : m.concealed.record = m.record := by
  obtain ⟨hfields, htext⟩ := Bool.and_eq_true_iff.1 h
  rw [record, record, loggerText_concealed, filled_concealed htext]
  refine congrArg (m.loggerText >>= ·) (funext fun logger => ?_)
  refine congrArg (m.filled >>= ·) (funext fun event => ?_)
  simp only [cleanFields_setField, cleanFields_append, cleanFields_own m hfields]
  rfl

theorem record?_concealed (h : s.passes m.logger m.level = true → m.isGuarded = true) :
    m.concealed.record? s = m.record? s := by
  rw [record?, record?, fields_concealed, any_concealFields fun _ _ _ => rfl]
  split
  · rfl
  · show (if s.passes m.logger m.level then some <$> m.concealed.record else .ok none) = _
    split
    · rw [record_concealed (h ‹_›)]
    · rfl

theorem line?_concealed (h : s.passes m.logger m.level = true → m.isGuarded = true) :
    m.concealed.line? s stamp = m.line? s stamp := by
  rw [line?, line?, record?_concealed h]

end Message

theorem lines_concealed {s : Setup} {stamp : String} {ms : List Message}
    (h : ∀ m ∈ ms, s.passes m.logger m.level = true → m.isGuarded = true) :
    lines s stamp (ms.map Message.concealed) = lines s stamp ms := by
  induction ms with
  | nil => rfl
  | cons m ms ih =>
    rw [List.map_cons, lines, lines, Message.line?_concealed (h m List.mem_cons_self),
      ih fun n hn => h n (List.mem_cons_of_mem m hn)]

/-- Lines do not depend on secrets: messages that are the same but for the values under sensitive
keys, in their fields or in the dictionaries among their arguments, are written as the same lines by
either renderer. Of a message that passes its logger this asks that redaction reaches the secrets of
its fields, and that its text gives none away. -/
theorem lines_of_concealed {s : Setup} {stamp : String} {ms ns : List Message}
    (hsame : ms.map Message.concealed = ns.map Message.concealed)
    (h : ∀ m ∈ ms, s.passes m.logger m.level = true → m.isGuarded = true) :
    lines s stamp ms = lines s stamp ns := by
  have hns : ∀ n ∈ ns, s.passes n.logger n.level = true → n.isGuarded = true := by
    intro n hn hpass
    have hmem : n.concealed ∈ ms.map Message.concealed := by
      rw [hsame]
      exact List.mem_map_of_mem hn
    obtain ⟨m, hm, heq⟩ := List.mem_map.1 hmem
    have hlogger : m.concealed.logger = n.concealed.logger := by rw [heq]
    have hlevel : m.concealed.level = n.concealed.level := by rw [heq]
    rw [← n.isGuarded_concealed, ← heq, m.isGuarded_concealed]
    refine h m hm ?_
    show s.passes m.concealed.logger m.concealed.level = true
    rw [hlogger, hlevel]
    exact hpass
  rw [← lines_concealed h, hsame, lines_concealed hns]

/-- A message about a login, with a secret among its arguments, in a field and deep in another. -/
def loginWith (secret : String) : Message where
  level := .info
  logger := "moneyledger.login"
  event := .text "login of %(name)s"
  fields := [("token", .text secret),
    ("request", .dict [("attempts", .list [.dict [("password", .text secret)]])])]
  args := [.dict [("name", .text "ann"), ("password", .text secret)]]

/-- The name is taken from the dictionary that holds the password as well. -/
theorem lines_of_logins :
    (loginWith "hunter2").isGuarded = true ∧ ({} : Setup).passes "moneyledger.login" .info = true ∧
      lines {} "now" [loginWith "hunter2"] = lines {} "now" [loginWith "swordfish"] ∧
      (lines {} "now" [loginWith "hunter2"]).isOk = true := by
  have hguarded : (loginWith "hunter2").isGuarded = true := by decide +kernel
  refine ⟨hguarded, by decide +kernel, ?_, by decide +kernel⟩
  refine lines_of_concealed rfl ?_
  intro m hm _
  rw [List.mem_singleton.1 hm]
  exact hguarded

/-- A message that is filled with a dictionary as a whole. -/
def attemptWith (secret : String) : Message where
  level := .warning
  logger := "moneyledger"
  event := .text "login %s"
  fields := []
  args := [.dict [("password", .text secret)]]

/-- A message with a dictionary in a list within a list. -/
def batchWith (secret : String) : Message where
  level := .warning
  logger := "moneyledger"
  event := .text "logins"
  fields := [("rows", .list [.list [.dict [("password", .text secret)]]])]

/-- A text shows the secrets of a dictionary that it is filled with, since nothing is redacted
before; and redaction leaves lists within lists as they are. -/
theorem secrets_shown :
    ([attemptWith "hunter2"].map Message.concealed = [attemptWith "swordfish"].map Message.concealed ∧
      lines { json := true } "now" [attemptWith "hunter2"]
        ≠ lines { json := true } "now" [attemptWith "swordfish"]) ∧
    [batchWith "hunter2"].map Message.concealed = [batchWith "swordfish"].map Message.concealed ∧
      lines { json := true } "now" [batchWith "hunter2"]
        ≠ lines { json := true } "now" [batchWith "swordfish"] := by
  have hattempt : (lines { json := true } "now" [attemptWith "hunter2"]).toOption
      ≠ (lines { json := true } "now" [attemptWith "swordfish"]).toOption := by decide +kernel
  have hbatch : (lines { json := true } "now" [batchWith "hunter2"]).toOption
      ≠ (lines { json := true } "now" [batchWith "swordfish"]).toOption := by decide +kernel
  exact ⟨⟨rfl, fun h => hattempt (congrArg _ h)⟩, rfl, fun h => hbatch (congrArg _ h)⟩

end Bookkeeping.Log
