import Bookkeeping.Log.Redaction

/-! # Concealed secrets

A value with its secrets concealed has a marker under every sensitive key, however deep the key
stands. Redaction does as much for the secrets that it reaches: it enters dictionaries, and the
dictionaries that are elements of a list, but no list within a list.
-/

namespace Bookkeeping

/-- What is true of every value without parts, and of a list or a dictionary as soon as it is true
of all that stands in it, is true of all values. -/
@[elab_as_elim]
theorem Value.byDepth {P : Value → Prop}
    (scalar : ∀ v, (∀ fs, v = .dict fs → False) → (∀ vs, v = .list vs → False) → P v)
    (list : ∀ vs, (∀ v ∈ vs, P v) → P (.list vs))
    (dict : ∀ fs, (∀ f ∈ fs, P f.2) → P (.dict fs)) (v : Value) : P v :=
  match v with
  | .list vs => list vs fun w _ => byDepth scalar list dict w
  | .dict fs => dict fs fun f _ => byDepth scalar list dict f.2
  | .null => scalar _ nofun nofun
  | .bool _ => scalar _ nofun nofun
  | .int _ => scalar _ nofun nofun
  | .float _ => scalar _ nofun nofun
  | .text _ => scalar _ nofun nofun
  | .decimal _ => scalar _ nofun nofun
  | .date _ => scalar _ nofun nofun
  | .moment _ => scalar _ nofun nofun
  | .kind _ => scalar _ nofun nofun
termination_by sizeOf v
decreasing_by
  · have := List.sizeOf_lt_of_mem ‹w ∈ vs›
    simp only [Value.list.sizeOf_spec]
    omega
  · have := List.sizeOf_lt_of_mem ‹f ∈ fs›
    obtain ⟨k, v⟩ := f
    simp only [Value.dict.sizeOf_spec, Prod.mk.sizeOf_spec] at this ⊢
    omega

end Bookkeeping

namespace Bookkeeping.Log

/-! ## Concealing -/

mutual

/-- A dictionary with the value under every sensitive key replaced, however deep the key stands. -/
def concealFields : List (String × Value) → List (String × Value)
  | [] => []
  | (k, v) :: rest => (k, if isSensitive k then redacted else conceal v) :: concealFields rest

/-- A value with its secrets replaced. -/
def conceal : Value → Value
  | .dict fs => .dict (concealFields fs)
  | .list vs => .list (concealElements vs)
  | v => v

/-- The elements of a list with their secrets replaced. -/
def concealElements : List Value → List Value
  | [] => []
  | v :: rest => conceal v :: concealElements rest

end

mutual

/-- Whether no key of a dictionary is sensitive, however deep it stands. -/
def bareFields : List (String × Value) → Bool
  | [] => true
  | (k, v) :: rest => !isSensitive k && bare v && bareFields rest

/-- Whether a value holds no secret. -/
def bare : Value → Bool
  | .dict fs => bareFields fs
  | .list vs => bareElements vs
  | _ => true

/-- Whether the elements of a list hold no secret. -/
def bareElements : List Value → Bool
  | [] => true
  | v :: rest => bare v && bareElements rest

end

mutual

/-- Whether redaction reaches every secret of a dictionary. -/
def guardedFields : List (String × Value) → Bool
  | [] => true
  | (k, v) :: rest => (isSensitive k || guarded v) && guardedFields rest

/-- Whether redaction reaches every secret of the value under a key. -/
def guarded : Value → Bool
  | .dict fs => guardedFields fs
  | .list vs => guardedElements vs
  | _ => true

/-- Whether redaction reaches every secret of an element of a list: it enters dictionaries only. -/
def guardedElement : Value → Bool
  | .dict fs => guardedFields fs
  | v => bare v

/-- Whether redaction reaches every secret of the elements of a list. -/
def guardedElements : List Value → Bool
  | [] => true
  | v :: rest => guardedElement v && guardedElements rest

end

/-! ### Dictionaries and lists as a whole -/

/-- A field with the value replaced by the marker or by another one. -/
def maskField (f : Value → Value) (field : String × Value) : String × Value :=
  (field.1, if isSensitive field.1 then redacted else f field.2)

section

variable {f : Value → Value} {field : String × Value}

theorem maskField_fst : (maskField f field).1 = field.1 := by
  rw [maskField]

theorem maskField_of_sensitive (h : isSensitive field.1 = true) :
    maskField f field = (field.1, redacted) := by
  rw [maskField, if_pos h]

theorem maskField_of_open (h : isSensitive field.1 = false) :
    maskField f field = (field.1, f field.2) := by
  rw [maskField, h, if_neg Bool.false_ne_true]

/-- A field stays masked as soon as what takes the place of its value stays. -/
theorem maskField_maskField (h : f (f field.2) = f field.2) :
    maskField f (maskField f field) = maskField f field := by
  by_cases hk : isSensitive field.1 = true
  · rw [maskField_of_sensitive hk]
    exact maskField_of_sensitive hk
  · rw [Bool.not_eq_true] at hk
    have hagain : maskField f (field.1, f field.2) = (field.1, f (f field.2)) :=
      maskField_of_open hk
    rw [maskField_of_open hk, hagain, h]

end

theorem concealFields_eq_map (fs : List (String × Value)) :
    concealFields fs = fs.map (maskField conceal) := by
  induction fs with
  | nil => rfl
  | cons f fs ih => rw [concealFields, ih, List.map_cons, maskField]

theorem cleanFields_eq_map (fs : List (String × Value)) :
    cleanFields fs = fs.map (maskField cleanValue) := by
  induction fs with
  | nil => rfl
  | cons f fs ih => rw [cleanFields, ih, List.map_cons, maskField]

theorem concealElements_eq_map (vs : List Value) : concealElements vs = vs.map conceal := by
  induction vs with
  | nil => rfl
  | cons v vs ih => rw [concealElements, ih, List.map_cons]

theorem bareElements_iff {vs : List Value} :
    bareElements vs = true ↔ ∀ v ∈ vs, bare v = true := by
  induction vs with
  | nil => simp [bareElements]
  | cons v vs ih => simp [bareElements, ih]

theorem bareFields_iff {fs : List (String × Value)} :
    bareFields fs = true ↔ ∀ f ∈ fs, isSensitive f.1 = false ∧ bare f.2 = true := by
  induction fs with
  | nil => simp [bareFields]
  | cons f fs ih => simp [bareFields, ih]

theorem guardedFields_iff {fs : List (String × Value)} :
    guardedFields fs = true ↔ ∀ f ∈ fs, isSensitive f.1 = false → guarded f.2 = true := by
  induction fs with
  | nil => simp [guardedFields]
  | cons f fs ih => simp [guardedFields, ih, Decidable.or_iff_not_imp_left]

/-! ### Concealing values -/

theorem conceal_of_bare {v : Value} (h : bare v = true) : conceal v = v := by
  induction v using Value.byDepth with
  | scalar v hd hl => exact conceal.eq_3 v hd hl
  | list vs ih =>
    rw [bare, bareElements_iff] at h
    rw [conceal, concealElements_eq_map, List.map_congr_left fun v hv => ih v hv (h v hv),
      List.map_id']
  | dict fs ih =>
    rw [bare, bareFields_iff] at h
    have heach : ∀ f ∈ fs, maskField conceal f = f := by
      intro f hf
      rw [maskField_of_open (h f hf).1, ih f hf (h f hf).2]
    rw [conceal, concealFields_eq_map, List.map_congr_left heach, List.map_id']

/-- To conceal secrets takes no key away. -/
theorem bare_conceal (v : Value) : bare (conceal v) = bare v := by
  induction v using Value.byDepth with
  | scalar v hd hl => rw [conceal.eq_3 v hd hl]
  | list vs ih =>
    rw [Bool.eq_iff_iff, conceal, bare, bare, bareElements_iff, bareElements_iff,
      concealElements_eq_map, List.forall_mem_map]
    exact forall₂_congr fun v hv => by rw [ih v hv]
  | dict fs ih =>
    rw [Bool.eq_iff_iff, conceal, bare, bare, bareFields_iff, bareFields_iff, concealFields_eq_map,
      List.forall_mem_map]
    refine forall₂_congr fun f hf => ?_
    rw [maskField_fst]
    refine and_congr_right fun hk => ?_
    rw [maskField_of_open hk, ih f hf]

theorem conceal_conceal (v : Value) : conceal (conceal v) = conceal v := by
  induction v using Value.byDepth with
  | scalar v hd hl => rw [conceal.eq_3 v hd hl, conceal.eq_3 v hd hl]
  | list vs ih =>
    simp only [conceal, concealElements_eq_map, List.map_map]
    have heach : vs.map (conceal ∘ conceal) = vs.map conceal := List.map_congr_left ih
    rw [heach]
  | dict fs ih =>
    simp only [conceal, concealFields_eq_map, List.map_map]
    exact congrArg Value.dict (List.map_congr_left fun f hf => maskField_maskField (ih f hf))

theorem concealFields_concealFields (fs : List (String × Value)) :
    concealFields (concealFields fs) = concealFields fs :=
  Value.dict.inj (conceal_conceal (.dict fs))

/-! ### Guarded values -/

theorem guardedElement_conceal {v : Value} (h : guarded (conceal v) = guarded v) :
    guardedElement (conceal v) = guardedElement v := by
  cases v with
  | dict fs => exact h
  | list vs => exact bare_conceal (.list vs)
  | _ => rfl

theorem guarded_conceal (v : Value) : guarded (conceal v) = guarded v := by
  induction v using Value.byDepth with
  | scalar v hd hl => rw [conceal.eq_3 v hd hl]
  | list vs ih =>
    rw [conceal, guarded, guarded]
    induction vs with
    | nil => rfl
    | cons v vs ihs =>
      rw [concealElements, guardedElements, guardedElements,
        guardedElement_conceal (ih v List.mem_cons_self),
        ihs fun w hw => ih w (List.mem_cons_of_mem v hw)]
  | dict fs ih =>
    rw [Bool.eq_iff_iff, conceal, guarded, guarded, guardedFields_iff, guardedFields_iff,
      concealFields_eq_map, List.forall_mem_map]
    refine forall₂_congr fun f hf => ?_
    rw [maskField_fst]
    refine imp_congr_right fun hk => ?_
    rw [maskField_of_open hk, ih f hf]

theorem guardedFields_conceal (fs : List (String × Value)) :
    guardedFields (concealFields fs) = guardedFields fs := guarded_conceal (.dict fs)

theorem cleanElements_cons {v : Value} {vs : List Value} (hv : guardedElement v = true)
    (h : guarded v = true → cleanValue v = conceal v) :
    cleanElements (v :: vs) = conceal v :: cleanElements vs := by
  cases v with
  | dict fs => exact congrArg (· :: cleanElements vs) (h hv)
  | list ws => exact congrArg (· :: cleanElements vs) (conceal_of_bare hv).symm
  | _ => rfl

/-- Redaction replaces every secret that it reaches. -/
theorem cleanValue_of_guarded {v : Value} (h : guarded v = true) : cleanValue v = conceal v := by
  induction v using Value.byDepth with
  | scalar v hd hl => rw [conceal.eq_3 v hd hl, cleanValue.eq_3 v hd hl]
  | list vs ih =>
    rw [conceal, cleanValue]
    rw [guarded] at h
    congr 1
    induction vs with
    | nil => rfl
    | cons v vs ihs =>
      rw [guardedElements, Bool.and_eq_true] at h
      rw [concealElements, cleanElements_cons h.1 (ih v List.mem_cons_self),
        ihs (fun w hw => ih w (List.mem_cons_of_mem v hw)) h.2]
  | dict fs ih =>
    rw [guarded, guardedFields_iff] at h
    rw [conceal, cleanValue, concealFields_eq_map, cleanFields_eq_map]
    refine congrArg Value.dict (List.map_congr_left fun f hf => ?_)
    by_cases hk : isSensitive f.1 = true
    · rw [maskField_of_sensitive hk, maskField_of_sensitive hk]
    · rw [Bool.not_eq_true] at hk
      rw [maskField_of_open hk, maskField_of_open hk, ih f hf (h f hf hk)]

theorem cleanFields_of_guarded {fs : List (String × Value)} (h : guardedFields fs = true) :
    cleanFields fs = concealFields fs :=
  Value.dict.inj (cleanValue_of_guarded (v := .dict fs) h)

end Bookkeeping.Log
