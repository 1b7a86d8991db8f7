import Bookkeeping.Proofs.Layers

/-! # The columns that a broken constraint names

The storage engine says of a key or a missing value which columns it is about, and of a domain which
condition fails. The rejection takes what stands after the phrase as far as it may be a list of
columns. That is the whole list in the first two cases. A condition is cut off at its first bracket,
and so the column is given together with the word behind it.
-/

namespace Bookkeeping.Rejection

open Store

/-! ## Characters of identifiers -/

/-- The code points of the blank characters. -/
def blankPoints : List Nat :=
  [9, 10, 11, 12, 13, 28, 29, 30, 31, 32, 133, 160, 5760, 8192, 8193, 8194, 8195, 8196, 8197, 8198,
    8199, 8200, 8201, 8202, 8232, 8233, 8239, 8287, 12288]

theorem mem_blankPoints {c : Char} (h : Text.isBlank c = true) : c.toNat ∈ blankPoints := by
  simp only [Text.isBlank, Text.isWhite, Bool.or_eq_true, Bool.and_eq_true, decide_eq_true_eq,
    beq_iff_eq] at h
  simp only [blankPoints, List.mem_cons, List.not_mem_nil, or_false]
  omega

/-- No word character is blank. -/
theorem isBlank_of_isWord {c : Char} (h : Text.isWord c = true) : Text.isBlank c = false := by
  cases hb : Text.isBlank c with
  | false => rfl
  | true =>
    have hnone : ∀ n ∈ blankPoints, Text.isWord (Char.ofNat n) = false := by decide +kernel
    have hword := hnone _ (mem_blankPoints hb)
    rw [Char.ofNat_toNat, h] at hword
    cases hword

/-- A name of a table or a column. -/
structure Identifier (s : String) : Prop where
  nonempty : s ≠ ""
  word : ∀ c ∈ s.toList, Text.isWord c = true

instance (s : String) : Decidable (Identifier s) :=
  decidable_of_iff (s ≠ "" ∧ s.toList.all Text.isWord = true)
    ⟨fun h => ⟨h.1, List.all_eq_true.1 h.2⟩, fun h => ⟨h.nonempty, List.all_eq_true.2 h.word⟩⟩

theorem Identifier.toList_ne_nil {s : String} (h : Identifier s) : s.toList ≠ [] := by
  simpa using h.nonempty

/-! ## Finding the columns in a message -/

theorem exists_constraintPhrase : ∃ rest, constraintPhrase = 'c' :: rest :=
  ⟨"onstraint failed: ".toList, by decide +kernel⟩

/-- The phrase is not found where its first letter does not stand. -/
theorem failedColumns?_append {before rest : List Char} (h : 'c' ∉ before) :
    failedColumns? (before ++ rest) = failedColumns? rest := by
  induction before with
  | nil => rfl
  | cons c before ih =>
    have hc : ('c' == c) = false := beq_eq_false_iff_ne.2 fun he => h (he ▸ List.mem_cons_self)
    have hphrase : constraintPhrase.isPrefixOf (c :: (before ++ rest)) = false := by
      obtain ⟨more, hmore⟩ := exists_constraintPhrase
      rw [hmore, List.isPrefixOf, hc, Bool.false_and]
    rw [List.cons_append, failedColumns?]
    simp only [hphrase, Bool.false_and, Bool.false_eq_true, if_false]
    exact ih fun hmem => h (List.mem_cons_of_mem c hmem)

/-- After the phrase the columns are taken as far as they go. -/
theorem failedColumns?_phrase {columns rest : List Char} (hne : columns ≠ [])
    (hcolumns : ∀ c ∈ columns, isColumnChar c = true) (hrest : ∀ c ∈ rest.head?, isColumnChar c = false) :
    failedColumns? (constraintPhrase ++ (columns ++ rest)) = some columns := by
  have htake : (columns ++ rest).takeWhile isColumnChar = columns := by
    rw [List.takeWhile_append_of_pos hcolumns]
    cases rest with
    | nil => simp
    | cons c rest => simp [hrest c rfl]
  have hdrop : (constraintPhrase ++ (columns ++ rest)).drop constraintPhrase.length = columns ++ rest :=
    List.drop_left
  have hphrase : constraintPhrase.isPrefixOf (constraintPhrase ++ (columns ++ rest)) = true :=
    List.isPrefixOf_iff_prefix.2 (List.prefix_append _ _)
  generalize hcs : constraintPhrase ++ (columns ++ rest) = cs at hdrop hphrase
  cases cs with
  | nil => cases hcs
  | cons c cs =>
    rw [failedColumns?]
    simp [hphrase, hdrop, htake, hne]

/-! ## Texts between identifiers -/

theorem isColumnChar_of_isWord {c : Char} (h : Text.isWord c = true) : isColumnChar c = true := by
  simp [isColumnChar, h]

theorem isColumnChar_space : isColumnChar ' ' = true := by simp [isColumnChar]

theorem isColumnChar_bracket : isColumnChar '(' = false := by decide +kernel

/-- A text of columns that starts and ends with an identifier. -/
structure Bounded (text : String) : Prop where
  chars : ∀ c ∈ text.toList, isColumnChar c = true
  starts : ∃ name rest, Identifier name ∧ text = name ++ rest
  ends : ∃ rest name, Identifier name ∧ text = rest ++ name

namespace Bounded

variable {s t : String}

theorem ofIdentifier (h : Identifier s) : Bounded s where
  chars c hc := isColumnChar_of_isWord (h.word c hc)
  starts := ⟨s, "", h, String.append_empty.symm⟩
  ends := ⟨"", s, h, String.empty_append.symm⟩

theorem append (hs : Bounded s) (ht : Bounded t) {between : String}
    (h : between.toList.all isColumnChar = true) : Bounded (s ++ between ++ t) where
  chars c hc := by
    rw [String.toList_append, String.toList_append, List.mem_append, List.mem_append] at hc
    rcases hc with (hc | hc) | hc
    · exact hs.chars c hc
    · exact List.all_eq_true.1 h c hc
    · exact ht.chars c hc
  starts := by
    obtain ⟨name, rest, hname, rfl⟩ := hs.starts
    exact ⟨name, rest ++ between ++ t, hname, by simp only [String.append_assoc]⟩
  ends := by
    obtain ⟨rest, name, hname, rfl⟩ := ht.ends
    exact ⟨s ++ between ++ rest, name, hname, by simp only [String.append_assoc]⟩

theorem toList_ne_nil (h : Bounded s) : s.toList ≠ [] := by
  obtain ⟨name, rest, hname, rfl⟩ := h.starts
  have hne := hname.nonempty
  simp_all

/-- Spaces that follow may stand among columns as well. -/
theorem chars_append (h : Bounded s) {gap : String} (hgap : ∀ c ∈ gap.toList, c = ' ') :
    ∀ c ∈ s.toList ++ gap.toList, isColumnChar c = true := by
  intro c hc
  rcases List.mem_append.1 hc with hc | hc
  · exact h.chars c hc
  · have heq : isColumnChar c = isColumnChar ' ' := congrArg isColumnChar (hgap c hc)
    exact heq.trans isColumnChar_space

theorem strip_eq (h : Bounded s) : Text.strip s = s := by
  refine Text.strip_eq_self (fun c hc => ?_) fun c hc => ?_
  · obtain ⟨name, rest, hname, rfl⟩ := h.starts
    rw [String.toList_append, List.head?_append_of_ne_nil _ hname.toList_ne_nil] at hc
    exact isBlank_of_isWord (hname.word c (List.mem_of_mem_head? hc))
  · obtain ⟨rest, name, hname, rfl⟩ := h.ends
    rw [String.toList_append, List.getLast?_append_of_ne_nil _ hname.toList_ne_nil] at hc
    exact isBlank_of_isWord (hname.word c (List.mem_of_mem_getLast? hc))

end Bounded

/-- The columns of a table as a message lists them, each behind the name of the table. -/
def columnList (table : String) (columns : List String) : String :=
  ", ".intercalate (columns.map fun c => table ++ "." ++ c)

section

variable {table column : String} {columns : List String}

theorem bounded_column (ht : Identifier table) (hc : Identifier column) :
    Bounded (table ++ "." ++ column) :=
  (Bounded.ofIdentifier ht).append (.ofIdentifier hc) (by decide +kernel)

theorem bounded_columnList (ht : Identifier table) (hne : columns ≠ [])
    (hc : ∀ c ∈ columns, Identifier c) : Bounded (columnList table columns) := by
  induction columns with
  | nil => exact absurd rfl hne
  | cons c rest ih =>
    have hfirst := bounded_column ht (hc c List.mem_cons_self)
    cases rest with
    | nil => exact hfirst
    | cons d rest =>
      have hrest := ih (List.cons_ne_nil d rest) fun x hx => hc x (List.mem_cons_of_mem c hx)
      rw [columnList, List.map_cons, List.map_cons, String.intercalate_cons_cons]
      exact hfirst.append hrest (by decide +kernel)

/-- The column of a condition and the word that follows it. -/
theorem bounded_condition (hc : Identifier column) : Bounded (column ++ " IN") := by
  have hin : Identifier "IN" := by decide +kernel
  have h : Bounded (column ++ " " ++ "IN") :=
    (Bounded.ofIdentifier hc).append (.ofIdentifier hin) (by decide +kernel)
  rwa [String.append_assoc] at h

end

/-- A message names the columns behind its phrase, whatever blanks and brackets follow them. -/
theorem columnsOf?_message (before gap rest : String) {text : String}
    (hbefore : 'c' ∉ before.toList) (htext : Bounded text) (hgap : ∀ c ∈ gap.toList, c = ' ')
    (hrest : ∀ c ∈ rest.toList.head?, isColumnChar c = false) :
    columnsOf? (before ++ ("constraint failed: " ++ (text ++ gap ++ rest))) = some text := by
  have hne : text.toList ++ gap.toList ≠ [] := by simp [htext.toList_ne_nil]
  have hfound := failedColumns?_phrase hne (htext.chars_append hgap) hrest
  have hblank : ∀ c ∈ gap.toList, Text.isBlank c = true := by
    intro c hc
    rw [hgap c hc]
    decide
  have hcut : String.ofList (Text.cutEnds Text.isBlank (text.toList ++ gap.toList)) = text := by
    have hends : Text.cutEnds Text.isBlank ([] ++ text.toList ++ gap.toList)
        = Text.cutEnds Text.isBlank text.toList :=
          Text.cutEnds_append (fun _ hc => absurd hc List.not_mem_nil) hblank _
    rw [List.nil_append] at hends
    rw [hends]
    exact htext.strip_eq
  rw [columnsOf?, String.toList_append, failedColumns?_append hbefore, String.toList_append,
    String.toList_append, String.toList_append]
  exact (congrArg (Option.map _) hfound).trans (congrArg some hcut)

/-! ## Rejections -/

section

variable {text column : String} (table : String) (deleting : Bool)

theorem ofConstraint_unique (h : Bounded text) :
    ofConstraint ("UNIQUE constraint failed: " ++ text) table deleting
      = ⟨.unique, "Duplicate value in " ++ table ++ ": " ++ text, some text, .null⟩ := by
  have hcolumns : columnsOf? ("UNIQUE constraint failed: " ++ text) = some text := by
    have hm := columnsOf?_message "UNIQUE " "" "" (by decide) h (by simp) (by simp)
    rwa [String.append_empty, String.append_empty, ← String.append_assoc] at hm
  have hstart : startsWith ("UNIQUE constraint failed: " ++ text) "UNIQUE" = true :=
    (startsWith_append _ _ _ (by decide)).trans (by decide)
  simp only [ofConstraint, hcolumns, hstart, if_true, Option.getD_some]

theorem ofConstraint_notNull (h : Bounded text) :
    ofConstraint ("NOT NULL constraint failed: " ++ text) table deleting
      = ⟨.nullConstraint, "Missing required value: " ++ text, some text, .null⟩ := by
  have hcolumns : columnsOf? ("NOT NULL constraint failed: " ++ text) = some text := by
    have hm := columnsOf?_message "NOT NULL " "" "" (by decide) h (by simp) (by simp)
    rwa [String.append_empty, String.append_empty, ← String.append_assoc] at hm
  have hunique : startsWith ("NOT NULL constraint failed: " ++ text) "UNIQUE" = false :=
    (startsWith_append _ _ _ (by decide)).trans (by decide)
  have hstart : startsWith ("NOT NULL constraint failed: " ++ text) "NOT NULL" = true :=
    (startsWith_append _ _ _ (by decide)).trans (by decide)
  simp only [ofConstraint, hcolumns, hunique, hstart, if_true, Bool.false_eq_true, if_false,
    Option.getD_some]

theorem ofConstraint_check (h : Identifier column) (values : String) :
    ofConstraint ("CHECK constraint failed: " ++ (column ++ " IN (" ++ values)) table deleting
      = ⟨.check, "Invalid value in " ++ table, some (column ++ " IN"), .null⟩ := by
  have hcolumns : columnsOf? ("CHECK constraint failed: " ++ (column ++ " IN (" ++ values))
      = some (column ++ " IN") := by
    have hbracket : ∀ c ∈ ("(" ++ values).toList.head?, isColumnChar c = false := by
      intro c hc
      rw [String.toList_append] at hc
      cases hc
      exact isColumnChar_bracket
    have hm := columnsOf?_message "CHECK " " " ("(" ++ values) (by decide) (bounded_condition h)
      (by simp) hbracket
    have hspace : column ++ " IN" ++ " " ++ ("(" ++ values) = column ++ " IN (" ++ values := by
      simp only [String.append_assoc]
      rw [← @String.append_assoc " ", ← @String.append_assoc " IN"]
      rfl
    rw [hspace, ← String.append_assoc] at hm
    exact hm
  have hunique : startsWith ("CHECK constraint failed: " ++ (column ++ " IN (" ++ values))
      "UNIQUE" = false := (startsWith_append _ _ _ (by decide)).trans (by decide)
  have hnull : startsWith ("CHECK constraint failed: " ++ (column ++ " IN (" ++ values))
      "NOT NULL" = false := (startsWith_append _ _ _ (by decide)).trans (by decide)
  have hstart : startsWith ("CHECK constraint failed: " ++ (column ++ " IN (" ++ values))
      "CHECK" = true := (startsWith_append _ _ _ (by decide)).trans (by decide)
  simp only [ofConstraint, hcolumns, hunique, hnull, hstart, if_true, Bool.false_eq_true, if_false]

end

/-- The columns of a key and the column of a missing value are reported exactly as the message lists
them, whatever the table and the statement. A domain is reported by its column and the word behind
it, whatever its values. -/
theorem ofConstraint_names {t column : String} {columns : List String} (ht : Identifier t)
    (hne : columns ≠ []) (hcolumns : ∀ c ∈ columns, Identifier c) (hcolumn : Identifier column)
    (table : String) (deleting : Bool) :
    ofConstraint ("UNIQUE constraint failed: " ++ columnList t columns) table deleting
        = ⟨.unique, "Duplicate value in " ++ table ++ ": " ++ columnList t columns,
          some (columnList t columns), .null⟩ ∧
      ofConstraint ("NOT NULL constraint failed: " ++ (t ++ "." ++ column)) table deleting
        = ⟨.nullConstraint, "Missing required value: " ++ (t ++ "." ++ column),
          some (t ++ "." ++ column), .null⟩ ∧
      ∀ values : List String,
        ofConstraint ("CHECK constraint failed: "
            ++ (column ++ " IN (" ++ (", ".intercalate values ++ ")"))) table deleting
          = ⟨.check, "Invalid value in " ++ table, some (column ++ " IN"), .null⟩ :=
  ⟨ofConstraint_unique table deleting (bounded_columnList ht hne hcolumns),
    ofConstraint_notNull table deleting (bounded_column ht hcolumn),
    fun _ => ofConstraint_check table deleting hcolumn _⟩

/-- A name that is taken, a missing type and one that there is not. -/
theorem ofConstraint_names_entries :
    Identifier "entries" ∧ (∀ c ∈ ["user_id", "name"], Identifier c) ∧ Identifier "entry_type" ∧
      (ofConstraint "UNIQUE constraint failed: currencies.user_id, currencies.name" "currencies"
          false).field = some "currencies.user_id, currencies.name" ∧
      (ofConstraint "NOT NULL constraint failed: entries.entry_type" "entries" false).field
        = some "entries.entry_type" ∧
      ofConstraint "CHECK constraint failed: entry_type IN ('spend', 'income')" "entries" false
        = ⟨.check, "Invalid value in entries", some "entry_type IN", .null⟩ := by
  have hcolumns : ∀ c ∈ ["user_id", "name"], Identifier c := by decide +kernel
  have hcurrencies : Identifier "currencies" := by decide +kernel
  have hentries : Identifier "entries" := by decide +kernel
  have htype : Identifier "entry_type" := by decide +kernel
  obtain ⟨hunique, -, -⟩ :=
    ofConstraint_names hcurrencies (by decide) hcolumns htype "currencies" false
  obtain ⟨-, hnull, hcheck⟩ :=
    ofConstraint_names hentries (by decide) hcolumns htype "entries" false
  have hlist : columnList "currencies" ["user_id", "name"]
      = "currencies.user_id, currencies.name" := by decide +kernel
  rw [hlist] at hunique
  exact ⟨hentries, hcolumns, htype, congrArg Rejection.field hunique,
    congrArg Rejection.field hnull, hcheck ["'spend'", "'income'"]⟩

/-- The column of a flag is not reported by its name. -/
theorem enabled_misnamed :
    (ofConstraint "CHECK constraint failed: enabled IN (0, 1)" "users" false).field
      ≠ some "enabled" := by
  decide +kernel

end Bookkeeping.Rejection
