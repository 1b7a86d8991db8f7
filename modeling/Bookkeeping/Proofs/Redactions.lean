import Bookkeeping.Proofs.Concealment

/-! # The reach of redaction

Two dictionaries that differ in secrets only have the same cleaned form if redaction reaches all of
the secrets, and only then. A record of the standard logging facility is left with no secret among
its arguments that redaction reaches; an attached value is replaced under a sensitive key, and one
under another key is not looked into.
-/

namespace Bookkeeping.Log

/-! ## Other secrets in the same places -/

/-- If one element of a list can be exchanged for one that `F` does not tell apart from it and `G`
does, then so can the list. -/
theorem exists_map_ne {α β γ : Type} {F : α → β} {G : α → γ} {l : List α} {a b : α}
    (ha : a ∈ l) (hF : F b = F a) (hG : G b ≠ G a) :
    ∃ m : List α, m.map F = l.map F ∧ m.map G ≠ l.map G := by
  obtain ⟨before, behind, rfl⟩ := List.append_of_mem ha
  refine ⟨before ++ b :: behind, ?_, fun h => hG ?_⟩
  · rw [List.map_append, List.map_append, List.map_cons, List.map_cons, hF]
  · rw [List.map_append, List.map_append, List.append_cancel_left_eq, List.map_cons,
      List.map_cons] at h
    exact (List.cons.inj h).1

/-- No value is a list of nothing but itself. -/
theorem list_self_ne (v : Value) : Value.list [v] ≠ v := by
  intro h
  have hsize := congrArg sizeOf h
  rw [Value.list.sizeOf_spec, List.cons.sizeOf_spec] at hsize
  omega

theorem bareElements_false {vs : List Value} (h : bareElements vs = false) :
    ∃ v ∈ vs, bare v = false := by
  rw [← Bool.not_eq_true, bareElements_iff] at h
  simpa using h

theorem bareFields_false {fs : List (String × Value)} (h : bareFields fs = false) :
    ∃ f ∈ fs, isSensitive f.1 = false → bare f.2 = false := by
  rw [← Bool.not_eq_true, bareFields_iff] at h
  simpa using h

theorem conceal_list_congr {vs ws : List Value} (h : ws.map conceal = vs.map conceal) :
    conceal (.list ws) = conceal (.list vs) := by
  rw [conceal, conceal, concealElements_eq_map, concealElements_eq_map, h]

theorem conceal_dict_congr {fs gs : List (String × Value)}
    (h : gs.map (maskField conceal) = fs.map (maskField conceal)) :
    conceal (.dict gs) = conceal (.dict fs) := by
  rw [conceal, conceal, concealFields_eq_map, concealFields_eq_map, h]

/-- A value that holds a secret may hold another one. -/
theorem exists_other_secret {v : Value} (h : bare v = false) :
    ∃ w, conceal w = conceal v ∧ w ≠ v := by
  induction v using Value.byDepth with
  | scalar v hd hl => rw [bare.eq_3 v hd hl] at h; exact Bool.noConfusion h
  | list vs ih =>
    obtain ⟨v, hv, hbare⟩ := bareElements_false h
    obtain ⟨w, hw, hne⟩ := ih v hv hbare
    obtain ⟨ws, hws, hwsne⟩ := exists_map_ne (G := id) hv hw hne
    rw [List.map_id, List.map_id] at hwsne
    exact ⟨.list ws, conceal_list_congr hws, fun he => hwsne (Value.list.inj he)⟩
  | dict fs ih =>
    have hfield : ∃ f ∈ fs, ∃ g, maskField conceal g = maskField conceal f ∧ g ≠ f := by
      obtain ⟨f, hf, hbare⟩ := bareFields_false h
      by_cases hk : isSensitive f.1 = true
      · -- a secret is exchanged for a list that holds it
        refine ⟨f, hf, (f.1, .list [f.2]), ?_, fun he => list_self_ne f.2 (congrArg Prod.snd he)⟩
        rw [maskField_of_sensitive hk]
        exact maskField_of_sensitive hk
      · rw [Bool.not_eq_true] at hk
        obtain ⟨w, hw, hne⟩ := ih f hf (hbare hk)
        refine ⟨f, hf, (f.1, w), ?_, fun he => hne (congrArg Prod.snd he)⟩
        rw [maskField_of_open hk, ← hw]
        exact maskField_of_open hk
    obtain ⟨f, hf, g, hg, hne⟩ := hfield
    obtain ⟨gs, hgs, hgsne⟩ := exists_map_ne (G := id) hf hg hne
    rw [List.map_id, List.map_id] at hgsne
    exact ⟨.dict gs, conceal_dict_congr hgs, fun he => hgsne (Value.dict.inj he)⟩

/-! ## Secrets that show -/

/-- An element of a list with its secrets replaced: only a dictionary is entered. -/
def cleanElement : Value → Value
  | .dict fs => .dict (cleanFields fs)
  | v => v

theorem cleanElements_eq_map (vs : List Value) : cleanElements vs = vs.map cleanElement := by
  induction vs with
  | nil => rfl
  | cons v vs ih =>
    rw [List.map_cons, ← ih]
    cases v <;> rfl

theorem guardedElements_false {vs : List Value} (h : guardedElements vs = false) :
    ∃ v ∈ vs, guardedElement v = false := by
  induction vs with
  | nil => exact Bool.noConfusion h
  | cons v vs ih =>
    rw [guardedElements, Bool.and_eq_false_iff] at h
    rcases h with h | h
    · exact ⟨v, List.mem_cons_self, h⟩
    · obtain ⟨w, hw, hg⟩ := ih h
      exact ⟨w, List.mem_cons_of_mem v hw, hg⟩

theorem guardedFields_false {fs : List (String × Value)} (h : guardedFields fs = false) :
    ∃ f ∈ fs, isSensitive f.1 = false ∧ guarded f.2 = false := by
  rw [← Bool.not_eq_true, guardedFields_iff] at h
  simpa using h

/-- What an element of a list shows of a secret, given that it would show it under a key. -/
theorem exists_shown_element {v : Value} (h : guardedElement v = false)
    (ih : guarded v = false → ∃ w, conceal w = conceal v ∧ cleanValue w ≠ cleanValue v) :
    ∃ w, conceal w = conceal v ∧ cleanElement w ≠ cleanElement v := by
  cases v with
  | dict fs =>
    obtain ⟨w, hw, hne⟩ := ih h
    cases w with
    | dict gs => exact ⟨.dict gs, hw, hne⟩
    | _ => exact Value.noConfusion hw
  | list vs =>
    -- a list within a list is left as it is, so any other secret in it shows
    obtain ⟨w, hw, hne⟩ := exists_other_secret h
    cases w with
    | list ws => exact ⟨.list ws, hw, hne⟩
    | _ => exact Value.noConfusion hw
  | _ => exact Bool.noConfusion h

/-- A secret that redaction does not reach shows in the cleaned value. -/
theorem exists_shown {v : Value} (h : guarded v = false) :
    ∃ w, conceal w = conceal v ∧ cleanValue w ≠ cleanValue v := by
  induction v using Value.byDepth with
  | scalar v hd hl => rw [guarded.eq_3 v hd hl] at h; exact Bool.noConfusion h
  | list vs ih =>
    obtain ⟨v, hv, hg⟩ := guardedElements_false h
    obtain ⟨w, hw, hne⟩ := exists_shown_element hg (ih v hv)
    obtain ⟨ws, hws, hwsne⟩ := exists_map_ne hv hw hne
    refine ⟨.list ws, conceal_list_congr hws, fun he => hwsne ?_⟩
    rw [← cleanElements_eq_map, ← cleanElements_eq_map]
    exact Value.list.inj he
  | dict fs ih =>
    obtain ⟨f, hf, hk, hg⟩ := guardedFields_false h
    obtain ⟨w, hw, hne⟩ := ih f hf hg
    have hkw : isSensitive (f.1, w).1 = false := hk
    have hsame : maskField conceal (f.1, w) = maskField conceal f := by
      rw [maskField_of_open hkw, maskField_of_open hk, hw]
    have hother : maskField cleanValue (f.1, w) ≠ maskField cleanValue f := by
      rw [maskField_of_open hkw, maskField_of_open hk]
      exact fun he => hne (congrArg Prod.snd he)
    obtain ⟨gs, hgs, hgsne⟩ := exists_map_ne hf hsame hother
    refine ⟨.dict gs, conceal_dict_congr hgs, fun he => hgsne ?_⟩
    rw [← cleanFields_eq_map, ← cleanFields_eq_map]
    exact Value.dict.inj he

/-- The cleaned form of a dictionary does not depend on its secrets, at whatever depth they stand,
exactly if redaction reaches all of them: that is, if no list within a list holds one. -/
theorem cleanFields_determined_iff (fs : List (String × Value)) :
    (∀ gs, concealFields gs = concealFields fs → cleanFields gs = cleanFields fs) ↔
      guardedFields fs = true := by
  constructor
  · intro h
    refine (Bool.eq_false_or_eq_true _).resolve_right fun hg => ?_
    obtain ⟨w, hw, hne⟩ := exists_shown (v := .dict fs) hg
    cases w with
    | dict gs => exact hne (congrArg Value.dict (h gs (Value.dict.inj hw)))
    | _ => exact Value.noConfusion hw
  · intro hg gs hgs
    have hgg : guardedFields gs = true := by
      rw [← guardedFields_conceal, hgs, guardedFields_conceal, hg]
    rw [cleanFields_of_guarded hgg, cleanFields_of_guarded hg, hgs]

/-- Rows of dictionaries, one of which holds a password. -/
def rowsWith (password : String) : List (String × Value) :=
  [("rows", .list [.list [.dict [("password", .text password)]]])]

/-- The password in a list of rows is a secret, and the cleaned rows show it. -/
theorem rows_shown :
    concealFields (rowsWith "hunter2") = concealFields (rowsWith "swordfish") ∧
      cleanFields (rowsWith "hunter2") ≠ cleanFields (rowsWith "swordfish") := by
  refine ⟨rfl, fun h => ?_⟩
  have hkept : rowsWith "hunter2" = rowsWith "swordfish" := h
  simp [rowsWith] at hkept

/-! ## Records of the standard logging facility -/

theorem cleanValue_cleanValue (v : Value) : cleanValue (cleanValue v) = cleanValue v := by
  induction v using Value.byDepth with
  | scalar v hd hl => rw [cleanValue.eq_3 v hd hl, cleanValue.eq_3 v hd hl]
  | list vs ih =>
    simp only [cleanValue, cleanElements_eq_map, List.map_map]
    refine congrArg Value.list (List.map_congr_left fun v hv => ?_)
    cases v with
    | dict fs => exact ih (.dict fs) hv
    | _ => rfl
  | dict fs ih =>
    simp only [cleanValue, cleanFields_eq_map, List.map_map]
    exact congrArg Value.dict (List.map_congr_left fun f hf => maskField_maskField (ih f hf))

/-- The arguments that a record is made with: none, a dictionary, or a tuple. -/
inductive Arguments : Value → Prop where
  | missing : Arguments .null
  | named (fs : List (String × Value)) : Arguments (.dict fs)
  | positional (vs : List Value) : Arguments (.list vs)

theorem cleanArguments_ok {v : Value} (h : Arguments v) : cleanArguments v = .ok (cleanValue v) := by
  cases h <;> rfl

theorem isSensitive_argumentsAttribute : isSensitive argumentsAttribute = false := by
  decide

/-- An attribute of a record that has passed, next to the arguments that the record has then. -/
def filterAttribute (arguments : Value) (f : String × Value) : String × Value :=
  (f.1, if f.1 == argumentsAttribute then arguments else if isSensitive f.1 then redacted else f.2)

section

variable {arguments : Value} {f : String × Value}

theorem filterAttribute_of_arguments (h : f.1 = argumentsAttribute) :
    filterAttribute arguments f = (f.1, arguments) := by
  rw [filterAttribute, if_pos (beq_iff_eq.2 h)]

theorem filterAttribute_of_sensitive (h : isSensitive f.1 = true) :
    filterAttribute arguments f = (f.1, redacted) := by
  have hname : f.1 ≠ argumentsAttribute := by
    intro he
    rw [he, isSensitive_argumentsAttribute] at h
    exact Bool.noConfusion h
  rw [filterAttribute, if_neg (by rwa [beq_iff_eq]), if_pos h]

theorem filterAttribute_of_open (hname : f.1 ≠ argumentsAttribute) (h : isSensitive f.1 = false) :
    filterAttribute arguments f = f := by
  rw [filterAttribute, if_neg (by rwa [beq_iff_eq]), h, if_neg Bool.false_ne_true]

/-- Redaction finds nothing to do in an attribute that has passed, unless it is kept as it was and
holds a secret. -/
theorem maskField_filterAttribute_iff (h : cleanValue arguments = arguments) :
    maskField cleanValue (filterAttribute arguments f) = filterAttribute arguments f ↔
      (f.1 ≠ argumentsAttribute → isSensitive f.1 = false → cleanValue f.2 = f.2) := by
  by_cases hname : f.1 = argumentsAttribute
  · have hopen : isSensitive (f.1, arguments).1 = false :=
      (congrArg isSensitive hname).trans isSensitive_argumentsAttribute
    rw [filterAttribute_of_arguments hname, maskField_of_open hopen, h]
    exact iff_of_true rfl fun hne => absurd hname hne
  · by_cases hk : isSensitive f.1 = true
    · have hmasked : maskField cleanValue (f.1, redacted) = (f.1, redacted) :=
        maskField_of_sensitive hk
      rw [filterAttribute_of_sensitive hk, hmasked, hk]
      exact iff_of_true rfl fun _ => nofun
    · rw [Bool.not_eq_true] at hk
      rw [filterAttribute_of_open hname hk, maskField_of_open hk]
      exact ⟨fun he _ _ => congrArg Prod.snd he, fun he => congrArg (f.1, ·) (he hname hk)⟩

end

namespace Record

theorem clean_ok {r : Record} (h : Arguments r.arguments) :
    r.clean = .ok {
      arguments := cleanValue r.arguments
      attached := r.attached.map (filterAttribute (cleanValue r.arguments)) } := by
  rw [Record.clean, cleanArguments_ok h]
  rfl

/-- Every record passes. It is left with no secret among its arguments that redaction of a
dictionary with these arguments would replace, and with none directly under a sensitive name. None
is left deeper in what is attached to it exactly if there was none: these values are not entered. -/
theorem clean_passed {r : Record} (h : Arguments r.arguments) :
    ∃ c, r.clean = .ok c ∧
      (c.arguments = cleanValue r.arguments ∧ cleanValue c.arguments = c.arguments) ∧
      (∀ f ∈ c.attached, isSensitive f.1 = true → f.2 = redacted) ∧
      (cleanFields c.attached = c.attached ↔
        ∀ f ∈ r.attached, f.1 ≠ argumentsAttribute → isSensitive f.1 = false →
          cleanValue f.2 = f.2) := by
  refine ⟨_, clean_ok h, ⟨rfl, cleanValue_cleanValue _⟩, ?_, ?_⟩
  · intro f hf hk
    obtain ⟨g, -, rfl⟩ := List.mem_map.1 hf
    have hg : isSensitive g.1 = true := hk
    rw [filterAttribute_of_sensitive hg]
  · rw [cleanFields_eq_map, List.map_map, List.map_inj_left]
    exact forall₂_congr fun f _ => maskField_filterAttribute_iff (cleanValue_cleanValue _)

/-- A record of a failed login, with the form that was sent as its argument. -/
def failedLogin (password : String) : Record where
  arguments := .list [.dict [("username", .text "alice"), ("password", .text password)]]
  attached := [("attempt", .int 3), ("api_key", .text "k-1")]

theorem failedLogin_passed :
    ∃ c, (failedLogin "hunter2").clean = .ok c ∧
      c.arguments = .list [.dict [("username", .text "alice"), ("password", redacted)]] ∧
      cleanFields c.attached = c.attached := by
  obtain ⟨c, hc, ⟨harguments, -⟩, -, hattached⟩ :=
    clean_passed (r := failedLogin "hunter2") (.positional _)
  have hkey : isSensitive "api_key" ≠ false := by decide
  exact ⟨c, hc, harguments, hattached.2 (List.forall_mem_cons.2
    ⟨fun _ _ => rfl, List.forall_mem_singleton.2 fun _ hk => absurd hk hkey⟩)⟩

/-- A record with the request that it is about attached. -/
def ofRequest (password : String) : Record where
  arguments := .null
  attached := [("request", .dict [("password", .text password)])]

/-- A record passes with the password in a request that is attached to it, although redaction of
the attributes would replace it. -/
theorem request_shown :
    (ofRequest "hunter2").clean = .ok (ofRequest "hunter2") ∧
      cleanFields (ofRequest "hunter2").attached ≠ (ofRequest "hunter2").attached := by
  refine ⟨rfl, fun h => ?_⟩
  have hmasked : [("request", Value.dict [("password", redacted)])] =
    [("request", Value.dict [("password", .text "hunter2")])] := h
  simp [redacted] at hmasked

end Record

end Bookkeeping.Log
