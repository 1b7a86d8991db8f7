import Bookkeeping.Proofs.Redactions

/-! # What redaction leaves as it is

Redaction takes away what stands under sensitive keys and nothing else. On a path without a sensitive
key one comes to the same keys, the same lengths and the same scalars as before. A dictionary that
was cleaned stays as it is when it is cleaned again, and so does any other one exactly if every
sensitive key that redaction comes to holds the marker already.
-/

namespace Bookkeeping

/-! ## Paths into values -/

namespace Value

/-- A step into a value: to what is under a key of a dictionary, or to an element of a list. -/
inductive Step where
  | key (name : String)
  | index (i : Nat)

/-- What a path leads to. -/
def at? : Value → List Step → Option Value
  | v, [] => some v
  | .dict fs, .key k :: path => (fs.lookup k).bind fun v => v.at? path
  | .list vs, .index i :: path => vs[i]?.bind fun v => v.at? path
  | _, _ => none

/-- What a value shows at first sight: a dictionary its keys, a list its length, a scalar itself. -/
inductive Outline where
  | keys (names : List String)
  | length (n : Nat)
  | scalar (v : Value)

def outline : Value → Outline
  | .dict fs => .keys (fs.map Prod.fst)
  | .list vs => .length vs.length
  | v => .scalar v

end Value

end Bookkeeping

namespace Bookkeeping.Log

/-- A path that passes no sensitive key. -/
def OpenPath (path : List Value.Step) : Prop := ∀ k, .key k ∈ path → isSensitive k = false

theorem OpenPath.tail {step : Value.Step} {path : List Value.Step} (h : OpenPath (step :: path)) :
    OpenPath path :=
  fun k hk => h k (List.mem_cons_of_mem step hk)

theorem outline_cleanValue (v : Value) : (cleanValue v).outline = v.outline := by
  cases v with
  | dict fs =>
    rw [cleanValue, Value.outline, Value.outline, cleanFields_eq_map, List.map_map]
    exact congrArg Value.Outline.keys (List.map_congr_left fun _ _ => maskField_fst)
  | list vs => rw [cleanValue, Value.outline, Value.outline, cleanElements_eq_map, List.length_map]
  | _ => rfl

theorem lookup_cleanFields {fs : List (String × Value)} {k : String} (hk : isSensitive k = false) :
    (cleanFields fs).lookup k = (fs.lookup k).map cleanValue := by
  induction fs with
  | nil => rfl
  | cons f fs ih =>
    obtain ⟨j, v⟩ := f
    rw [cleanFields, List.lookup_cons, List.lookup_cons]
    cases hj : k == j with
    | true =>
      rw [← beq_iff_eq.1 hj, hk]
      rfl
    | false => exact ih

/-- An element of a list is cleaned like the value under a key, or kept as it is. -/
theorem cleanElement_eq (v : Value) : cleanElement v = cleanValue v ∨ cleanElement v = v := by
  cases v with
  | dict fs => exact .inl rfl
  | _ => exact .inr rfl

/-- On a path without sensitive keys redaction changes nothing that is seen at first sight. -/
theorem outline_at?_cleanValue {path : List Value.Step} (h : OpenPath path) (v : Value) :
    ((cleanValue v).at? path).map Value.outline = (v.at? path).map Value.outline := by
  induction path generalizing v with
  | nil => exact congrArg some (outline_cleanValue v)
  | cons step path ih =>
    have hrest := ih h.tail
    cases step with
    | key k =>
      cases v with
      | dict fs =>
        have hk : isSensitive k = false := h k List.mem_cons_self
        rw [cleanValue, Value.at?, Value.at?, lookup_cleanFields hk]
        cases fs.lookup k with
        | none => rfl
        | some w => exact hrest w
      | _ => rfl
    | index i =>
      cases v with
      | list vs =>
        rw [cleanValue, Value.at?, Value.at?, cleanElements_eq_map, List.getElem?_map]
        cases vs[i]? with
        | none => rfl
        | some w =>
          show ((cleanElement w).at? path).map Value.outline = _
          rcases cleanElement_eq w with hw | hw
          · rw [hw]
            exact hrest w
          · rw [hw]
            rfl
      | _ => rfl

/-! ## Dictionaries that stay as they are -/

/-- The dictionaries that redaction enters from a value: the value itself, or the elements of a list. -/
inductive Enters : Value → List (String × Value) → Prop
  | value (fs : List (String × Value)) : Enters (.dict fs) fs
  | element {vs : List Value} {fs : List (String × Value)} (h : .dict fs ∈ vs) : Enters (.list vs) fs

/-- The dictionaries that redaction of a dictionary comes to: the dictionary itself, and what it comes
to from those that it enters under keys that are not sensitive. -/
inductive ComesTo : List (String × Value) → List (String × Value) → Prop
  | start (fs : List (String × Value)) : ComesTo fs fs
  | under {fs gs hs : List (String × Value)} {f : String × Value} (hf : f ∈ fs)
      (hk : isSensitive f.1 = false) (he : Enters f.2 gs) (h : ComesTo gs hs) : ComesTo fs hs

/-- A dictionary in which every sensitive key holds the marker. -/
def Marked (fs : List (String × Value)) : Prop := ∀ f ∈ fs, isSensitive f.1 = true → f.2 = redacted

theorem map_eq_self_iff {α : Type} {f : α → α} {l : List α} : l.map f = l ↔ ∀ a ∈ l, f a = a := by
  have h : l.map f = l.map id ↔ ∀ a ∈ l, f a = id a := List.map_inj_left
  rwa [List.map_id] at h

theorem cleanElement_eq_self_iff {v : Value} :
    cleanElement v = v ↔ ∀ fs, v = .dict fs → cleanFields fs = fs := by
  cases v with
  | dict fs => simp [cleanElement]
  | _ => exact iff_of_true rfl nofun

theorem cleanValue_eq_self_iff {v : Value} :
    cleanValue v = v ↔ ∀ fs, Enters v fs → cleanFields fs = fs := by
  cases v with
  | dict fs =>
    rw [cleanValue, Value.dict.injEq]
    refine ⟨fun h gs he => ?_, fun h => h fs (.value fs)⟩
    cases he
    exact h
  | list vs =>
    rw [cleanValue, Value.list.injEq, cleanElements_eq_map, map_eq_self_iff]
    constructor
    · intro h fs he
      cases he with
      | element hmem => exact cleanElement_eq_self_iff.1 (h _ hmem) fs rfl
    · intro h v hv
      refine cleanElement_eq_self_iff.2 fun fs hfs => h fs (.element ?_)
      rwa [← hfs]
  | _ =>
    refine iff_of_true rfl fun fs he => ?_
    cases he

theorem maskField_eq_self_iff {f : Value → Value} {field : String × Value} :
    maskField f field = field ↔ (isSensitive field.1 = true → field.2 = redacted) ∧
      (isSensitive field.1 = false → f field.2 = field.2) := by
  by_cases hk : isSensitive field.1 = true
  · rw [maskField_of_sensitive hk, hk, Prod.ext_iff]
    simp [eq_comm]
  · rw [Bool.not_eq_true] at hk
    rw [maskField_of_open hk, hk, Prod.ext_iff]
    simp

/-- A dictionary stays as it is if its own sensitive keys hold the marker and the dictionaries that
redaction enters from it stay. -/
theorem cleanFields_eq_self_iff {fs : List (String × Value)} :
    cleanFields fs = fs ↔ Marked fs ∧
      ∀ f ∈ fs, isSensitive f.1 = false → ∀ gs, Enters f.2 gs → cleanFields gs = gs := by
  simp only [cleanFields_eq_map fs, map_eq_self_iff, maskField_eq_self_iff,
    cleanValue_eq_self_iff]
  exact ⟨fun h => ⟨fun f hf => (h f hf).1, fun f hf => (h f hf).2⟩,
    fun h f hf => ⟨h.1 f hf, h.2 f hf⟩⟩

theorem ComesTo.marked {fs gs : List (String × Value)} (h : ComesTo fs gs)
    (hfs : cleanFields fs = fs) : Marked gs := by
  induction h with
  | start => exact (cleanFields_eq_self_iff.1 hfs).1
  | under hf hk he _ ih => exact ih ((cleanFields_eq_self_iff.1 hfs).2 _ hf hk _ he)

/-- What redaction enters stays as it is if all that it comes to from there is marked. -/
theorem cleanFields_of_marked {v : Value} {fs : List (String × Value)} (he : Enters v fs)
    (h : ∀ gs, ComesTo fs gs → Marked gs) : cleanFields fs = fs := by
  induction v using Value.byDepth generalizing fs with
  | scalar v hd hl =>
    cases he with
    | value => exact (hd _ rfl).elim
    | element => exact (hl _ rfl).elim
  | list vs ih =>
    cases he with
    | element hmem => exact ih _ hmem (.value fs) h
  | dict gs ih =>
    cases he with
    | value =>
      exact cleanFields_eq_self_iff.2 ⟨h gs (.start gs), fun f hf hk hs hentered =>
        ih f hf hentered fun _ hcomes => h _ (.under hf hk hentered hcomes)⟩

/-- Redaction takes away secrets only, and all at once: wherever no sensitive key leads past, keys,
lengths and scalars are those of the dictionary, to clean it a second time changes nothing, and to
clean it at all changes nothing exactly if every sensitive key that redaction comes to holds the
marker. -/
theorem cleanFields_spares_rest (fs : List (String × Value)) :
    (∀ path, OpenPath path → ((Value.dict (cleanFields fs)).at? path).map Value.outline
      = ((Value.dict fs).at? path).map Value.outline) ∧
    cleanFields (cleanFields fs) = cleanFields fs ∧
    (cleanFields fs = fs ↔ ∀ gs, ComesTo fs gs → ∀ f ∈ gs, isSensitive f.1 = true → f.2 = redacted) :=
  ⟨fun _ h => outline_at?_cleanValue h (.dict fs),
    Value.dict.inj (cleanValue_cleanValue (.dict fs)),
    fun h _ hg => hg.marked h, cleanFields_of_marked (.value fs)⟩

end Bookkeeping.Log
