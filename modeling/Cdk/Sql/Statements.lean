import Mathlib

/-!
# Statements

A SQL text is cut at its placeholders, which begin with a colon outside of the
quoted literals. A statement is rendered with numbers for its placeholders and
with their values in the same order. The text that was rendered for values alone
is kept in a cache by the SQL text.
-/

namespace Cdk

namespace Sql

/-! ## Parts -/

variable {V : Type}

/-- `PlaceholderValue`. -/
inductive PlaceholderValue (V : Type) where
  | value (value : V)
  | set (values : List V)
deriving DecidableEq, Repr

/-- `SqlPart`. -/
inductive SqlPart (V : Type) where
  | raw (text : String)
  | placeholder (name : String) (value : Option (PlaceholderValue V))
deriving DecidableEq, Repr

/-- `SqlParseError`. -/
inductive SqlParseError where
  | unterminatedStringLiteral
  | invalidPlaceholder
deriving DecidableEq, Repr

/-- What is read to the end of a literal, with the quote that ends it, and what follows. A doubled
quote is part of the literal. -/
def scanLiteral (quote : Char) : List Char → Option (List Char × List Char)
  | [] => none
  | [c] => if c = quote then some ([c], []) else none
  | c :: next :: rest =>
      if c = quote then
        if next = quote then
          (scanLiteral quote rest).map fun scanned => (c :: next :: scanned.1, scanned.2)
        else some ([c], next :: rest)
      else (scanLiteral quote (next :: rest)).map fun scanned => (c :: scanned.1, scanned.2)

/-- The characters of names. Those of other scripts are the parameter. -/
def isNameChar (alphanumeric : Char → Bool) (c : Char) : Bool :=
  (if c.toNat < 128 then c.isAlphanum else alphanumeric c) || c = '_'

def flush (current : List Char) (parts : List (SqlPart V)) : List (SqlPart V) :=
  if current = [] then parts else .raw (String.ofList current) :: parts

/-- The quote of the literal that is open, before and after a character. Two quotes in a literal
close it and open it again. -/
def quoteAfter (quote : Option Char) (c : Char) : Option Char :=
  match quote with
  | none => if c = '\'' ∨ c = '"' then some c else none
  | some opened => if c = opened then none else some opened

/-- The quote of the literal that is open after a text. -/
def openQuote (text : List Char) : Option Char := text.foldl quoteAfter none

/-- A literal ends where it is closed. -/
theorem scanLiteral_spec {quote : Char} {text literal rest : List Char}
    (hquote : quote = '\'' ∨ quote = '"') (h : scanLiteral quote text = some (literal, rest)) :
    text = literal ++ rest ∧ literal.foldl quoteAfter (some quote) = none := by
  induction text using scanLiteral.induct quote generalizing literal with
  | case1 => cases h
  | case2 =>
      rw [scanLiteral, if_pos rfl] at h
      cases h
      simp [quoteAfter]
  | case3 c hc =>
      rw [scanLiteral, if_neg hc] at h
      cases h
  | case4 rest' ih =>
      rw [scanLiteral, if_pos rfl, if_pos rfl, Option.map_eq_some_iff] at h
      obtain ⟨⟨inner, after⟩, hinner, heq⟩ := h
      cases heq
      obtain ⟨htext, hclosed⟩ := ih hinner
      refine ⟨by rw [htext]; rfl, ?_⟩
      rw [List.foldl_cons, List.foldl_cons, quoteAfter, if_pos rfl, quoteAfter, if_pos hquote,
        hclosed]
  | case5 next rest' hnext =>
      rw [scanLiteral, if_pos rfl, if_neg hnext] at h
      cases h
      simp [quoteAfter]
  | case6 c next rest' hc ih =>
      rw [scanLiteral, if_neg hc, Option.map_eq_some_iff] at h
      obtain ⟨⟨inner, after⟩, hinner, heq⟩ := h
      cases heq
      obtain ⟨htext, hclosed⟩ := ih hinner
      refine ⟨by rw [htext]; rfl, ?_⟩
      rw [List.foldl_cons, quoteAfter, if_neg hc, hclosed]

/-- The loop of `split_sql_parts`, with the raw text that is not flushed yet. -/
def splitFrom (alphanumeric : Char → Bool) (current : List Char) :
    List Char → Except SqlParseError (List (SqlPart V))
  | [] => .ok (flush current [])
  | c :: rest =>
      if c = '\'' ∨ c = '"' then
        match _hscan : scanLiteral c rest with
        | none => .error .unterminatedStringLiteral
        | some (literal, rest) => splitFrom alphanumeric (current ++ c :: literal) rest
      else if c = ':' then
        let name := rest.takeWhile (isNameChar alphanumeric)
        if name = [] then .error .invalidPlaceholder
        else
          (splitFrom alphanumeric [] (rest.dropWhile (isNameChar alphanumeric))).map fun parts =>
            flush current (.placeholder (String.ofList name) none :: parts)
      else splitFrom alphanumeric (current ++ [c]) rest
termination_by text => text.length
decreasing_by
  · have hquote : c = '\'' ∨ c = '"' := by assumption
    have hlength := congrArg List.length (scanLiteral_spec hquote _hscan).1
    rw [List.length_append] at hlength
    simp only [List.length_cons]
    omega
  · have := (List.dropWhile_suffix (isNameChar alphanumeric) (l := rest)).length_le
    simp only [List.length_cons]
    omega
  · simp

/-- `split_sql_parts`. -/
def splitSqlParts (alphanumeric : Char → Bool) (input : String) :
    Except SqlParseError (List (SqlPart V)) :=
  splitFrom alphanumeric [] input.toList

/-! ## The text of the parts -/

/-- The SQL text of a part. -/
def SqlPart.source : SqlPart V → List Char
  | .raw text => text.toList
  | .placeholder name _ => ':' :: name.toList

def source (parts : List (SqlPart V)) : List Char := parts.flatMap SqlPart.source

/-- No placeholder is inside a literal. -/
def OutsideLiterals (parts : List (SqlPart V)) : Prop :=
  ∀ before name value after, parts = before ++ .placeholder name value :: after →
    openQuote (source before) = none

@[simp] theorem source_cons (part : SqlPart V) (parts : List (SqlPart V)) :
    source (part :: parts) = part.source ++ source parts := List.flatMap_cons

@[simp] theorem source_flush (current : List Char) (parts : List (SqlPart V)) :
    source (flush current parts) = current ++ source parts := by
  unfold flush
  split
  next h => rw [h, List.nil_append]
  next => rw [source_cons, SqlPart.source, String.toList_ofList]

theorem openQuote_append {before after : List Char} (h : openQuote before = none) :
    openQuote (before ++ after) = openQuote after := by
  rw [openQuote, List.foldl_append]
  exact congrArg (after.foldl quoteAfter ·) h

/-- Neither a colon nor a name opens a literal. -/
theorem openQuote_name {alphanumeric : Char → Bool} {name : List Char}
    (hname : ∀ c ∈ name, isNameChar alphanumeric c = true) : openQuote (':' :: name) = none := by
  have hstart : openQuote (':' :: name) = openQuote name := rfl
  rw [hstart]
  induction name with
  | nil => rfl
  | cons c name ih =>
      obtain ⟨hc, hname⟩ := List.forall_mem_cons.mp hname
      have hquote : ¬ (c = '\'' ∨ c = '"') := by
        rintro (rfl | rfl) <;> simp [isNameChar] at hc
      have hnext : quoteAfter none c = none := if_neg hquote
      rw [openQuote, List.foldl_cons, hnext]
      exact ih hname rfl

/-- A part without its value. -/
def SqlPart.clear : SqlPart V → SqlPart V
  | .raw text => .raw text
  | .placeholder name _ => .placeholder name none

/-- The parts of a text: they are joined to it, none of them has a value, and no placeholder is
inside a literal. -/
structure SplitOf (text : List Char) (parts : List (SqlPart V)) : Prop where
  source_eq : source parts = text
  outside : OutsideLiterals parts
  clear : ∀ part ∈ parts, part.clear = part

namespace SplitOf

variable {text : List Char} {parts : List (SqlPart V)}

theorem nil : SplitOf [] ([] : List (SqlPart V)) where
  source_eq := rfl
  outside := by
    intro before name value after h
    simp at h
  clear := fun _ h => nomatch h

theorem cons (h : SplitOf text parts) (part : SqlPart V) (hclear : part.clear = part)
    (hpart : openQuote part.source = none) : SplitOf (part.source ++ text) (part :: parts) where
  source_eq := by rw [source_cons, h.source_eq]
  outside := by
    intro before name value after heq
    cases before with
    | nil => rfl
    | cons first before =>
        obtain ⟨rfl, htail⟩ := List.cons_eq_cons.mp heq
        rw [source_cons, openQuote_append hpart]
        exact h.outside before name value after htail
  clear := List.forall_mem_cons.mpr ⟨hclear, h.clear⟩

theorem flush (h : SplitOf text parts) {current : List Char} (hcurrent : openQuote current = none) :
    SplitOf (current ++ text) (flush current parts) := by
  unfold Sql.flush
  split
  next hnil =>
    rw [hnil]
    exact h
  next =>
    have hsource : (SqlPart.raw (String.ofList current) : SqlPart V).source = current :=
      String.toList_ofList
    have hraw := h.cons (.raw (String.ofList current)) rfl (by rw [hsource, hcurrent])
    rwa [hsource] at hraw

end SplitOf

/-- The loop keeps the text, and outside of its rounds no literal is open. -/
theorem splitFrom_spec {alphanumeric : Char → Bool} {current text : List Char}
    {parts : List (SqlPart V)} (hcurrent : openQuote current = none)
    (h : splitFrom alphanumeric current text = .ok parts) : SplitOf (current ++ text) parts := by
  induction hsize : text.length using Nat.strongRecOn generalizing current text parts with
  | ind size ih =>
      cases text with
      | nil =>
          rw [splitFrom] at h
          cases h
          exact SplitOf.nil.flush hcurrent
      | cons c rest =>
          rw [splitFrom] at h
          split at h
          next hquote =>
            split at h
            next => cases h
            next literal after hscan =>
              obtain ⟨htext, hclosed⟩ := scanLiteral_spec hquote hscan
              have hopen : openQuote (current ++ c :: literal) = none := by
                have hfirst : quoteAfter none c = some c := if_pos hquote
                rw [openQuote_append hcurrent, openQuote, List.foldl_cons, hfirst, hclosed]
              have hshort : after.length < size := by
                rw [← hsize, htext, List.length_cons, List.length_append]
                omega
              have hsplit := ih _ hshort hopen h rfl
              rwa [List.append_assoc, List.cons_append, ← htext] at hsplit
          next hquote =>
            split at h
            next hcolon =>
              subst hcolon
              dsimp only at h
              split at h
              next => cases h
              next hname =>
                generalize hlater : splitFrom (V := V) alphanumeric []
                  (rest.dropWhile (isNameChar alphanumeric)) = later at h
                cases later with
                | error => cases h
                | ok later =>
                    cases h
                    have hnext := (List.dropWhile_suffix (isNameChar alphanumeric)
                      (l := rest)).length_le
                    have hshort : (rest.dropWhile (isNameChar alphanumeric)).length < size := by
                      rw [← hsize, List.length_cons]
                      omega
                    have hsplit := ih _ hshort rfl hlater rfl
                    have hopen := openQuote_name fun c hc =>
                      List.mem_takeWhile_imp (p := isNameChar alphanumeric) (l := rest) hc
                    have hsource : (SqlPart.placeholder (String.ofList
                        (rest.takeWhile (isNameChar alphanumeric))) none : SqlPart V).source =
                          ':' :: rest.takeWhile (isNameChar alphanumeric) :=
                      congrArg (':' :: ·) String.toList_ofList
                    have hcons := hsplit.cons (.placeholder (String.ofList
                      (rest.takeWhile (isNameChar alphanumeric))) none) rfl
                        (by rw [hsource, hopen])
                    rw [hsource, List.nil_append, List.cons_append,
                      List.takeWhile_append_dropWhile] at hcons
                    exact hcons.flush hcurrent
            next hcolon =>
              have hplain : openQuote (current ++ [c]) = none := by
                rw [openQuote_append hcurrent]
                exact if_neg hquote
              have hshort : rest.length < size := by
                rw [← hsize]
                exact Nat.lt_succ_self _
              have hsplit := ih _ hshort hplain h rfl
              rwa [List.append_assoc, List.singleton_append] at hsplit

theorem splitSqlParts_spec {alphanumeric : Char → Bool} {input : String}
    {parts : List (SqlPart V)} (h : splitSqlParts alphanumeric input = .ok parts) :
    SplitOf input.toList parts := splitFrom_spec rfl h

/-! ## Rendering -/

/-- The white space of Unicode. -/
def isWhitespace (c : Char) : Bool :=
  9 ≤ c.toNat ∧ c.toNat ≤ 13 ∨ 0x2000 ≤ c.toNat ∧ c.toNat ≤ 0x200A ∨
    c.toNat ∈ [0x20, 0x85, 0xA0, 0x1680, 0x2028, 0x2029, 0x202F, 0x205F, 0x3000]

/-- `str::trim`. -/
def trim (text : String) : String :=
  String.ofList ((text.toList.dropWhile isWhitespace).rdropWhile isWhitespace)

/-- `Error::MissingPlaceholder`. -/
structure MissingPlaceholder where
  name : String
deriving DecidableEq, Repr

/-- The values that are collected so far, and whether the text can be cached. -/
structure Rendering (V : Type) where
  values : List V
  canBeCached : Bool

/-- The number of a value. -/
def dollar (i : Nat) : String := "$" ++ toString i

/-- The closure of `to_sql` over the parts. -/
def renderPart (s : Rendering V) : SqlPart V → Except MissingPlaceholder (String × Rendering V)
  | .raw text => .ok (trim text, s)
  | .placeholder name none => .error ⟨name⟩
  | .placeholder _ (some (.value value)) =>
      let placeholderValues := s.values ++ [value]
      .ok (dollar placeholderValues.length, { s with values := placeholderValues })
  | .placeholder _ (some (.set values)) =>
      let startSize := s.values.length
      let placeholderValues := s.values ++ values
      let numbers := List.range' (startSize + 1) (placeholderValues.length - startSize)
      .ok (", ".intercalate (numbers.map dollar), ⟨placeholderValues, false⟩)

/-- Render the parts in their order, up to the first that has no value. -/
def renderParts : List (SqlPart V) → Rendering V →
    Except MissingPlaceholder (List String × Rendering V)
  | [], s => .ok ([], s)
  | part :: rest, s => do
      let (text, s) ← renderPart s part
      let (texts, s) ← renderParts rest s
      .ok (text :: texts, s)

/-- The values of a part, which are all that is rendered when the text is cached. -/
def partValues : SqlPart V → Except MissingPlaceholder (List V)
  | .raw _ => .ok []
  | .placeholder name none => .error ⟨name⟩
  | .placeholder _ (some (.value value)) => .ok [value]
  | .placeholder _ (some (.set values)) => .ok values

/-- The parts of a SQL text, and its text with numbers once that has been rendered. -/
abbrev Cache (V : Type) := String → Option (List (SqlPart V) × Option String)

def Cache.empty : Cache V := fun _ => none

/-- `Statement`. -/
structure Statement (V : Type) where
  cachedSql : Option String
  sql : Option String
  parts : List (SqlPart V)

/-- `Statement::new`. -/
def Statement.new (alphanumeric : Char → Bool) (sql : String) (cache : Cache V) :
    Except SqlParseError (Statement V) × Cache V :=
  match cache sql with
  | some (parts, cachedSql) => (.ok ⟨cachedSql, none, parts⟩, cache)
  | none =>
      match splitSqlParts alphanumeric sql with
      | .error error => (.error error, cache)
      | .ok parts =>
          (.ok ⟨none, some sql, parts⟩, Function.update cache sql (some (parts, none)))

/-- Keep the text of a statement that was not taken from the cache. -/
def Cache.keep (cache : Cache V) (original : Option String) (sql : String) : Cache V :=
  match original with
  | none => cache
  | some original =>
      match cache original with
      | none => cache
      | some (parts, _) => Function.update cache original (some (parts, some sql))

/-- `Statement::to_sql`. -/
def Statement.toSql (statement : Statement V) (cache : Cache V) :
    Except MissingPlaceholder (String × List V) × Cache V :=
  match statement.cachedSql with
  | some sql =>
      ((statement.parts.mapM partValues).map fun values => (sql, values.flatten), cache)
  | none =>
      match renderParts statement.parts ⟨[], true⟩ with
      | .error error => (.error error, cache)
      | .ok (texts, s) =>
          let sql := " ".intercalate texts
          (.ok (sql, s.values), if s.canBeCached then cache.keep statement.sql sql else cache)

/-- Give a value to the placeholders of a name. -/
def SqlPart.bind (name : String) (value : PlaceholderValue V) : SqlPart V → SqlPart V
  | .raw text => .raw text
  | .placeholder partName partValue =>
      .placeholder partName (if partName = name then some value else partValue)

/-- `Statement::bind` for a value and `Statement::bind_vec` for a set. -/
def Statement.bind (name : String) (value : PlaceholderValue V) (statement : Statement V) :
    Statement V :=
  { statement with parts := statement.parts.map (SqlPart.bind name value) }

/-! ## Numbers -/

/-- The values that a part is bound to. -/
def SqlPart.values : SqlPart V → List V
  | .placeholder _ (some (.value value)) => [value]
  | .placeholder _ (some (.set values)) => values
  | _ => []

def PlaceholderValue.isSet : PlaceholderValue V → Bool
  | .value _ => false
  | .set _ => true

def SqlPart.isSet : SqlPart V → Bool
  | .placeholder _ (some value) => value.isSet
  | _ => false

/-- The name of a placeholder without a value. -/
def SqlPart.unbound : SqlPart V → Option String
  | .placeholder name none => some name
  | _ => none

/-- What is written for a part with the numbers of its values. -/
def SqlPart.render (numbers : List Nat) : SqlPart V → String
  | .raw text => trim text
  | .placeholder _ _ => ", ".intercalate (numbers.map dollar)

/-- All placeholders have a value. -/
def Bound (parts : List (SqlPart V)) : Prop := ∀ part ∈ parts, part.unbound = none

/-- The parts are written in their order, the values are those of the placeholders in this order,
and the numbers of the placeholders count them from one. -/
structure Numbered (parts : List (SqlPart V)) (sql : String) (values : List V) : Prop where
  values_eq : values = parts.flatMap SqlPart.values
  sql_eq : ∃ numbers : List (List Nat), numbers.flatten = List.range' 1 values.length ∧
    numbers.map List.length = parts.map (fun part => part.values.length) ∧
    sql = " ".intercalate (List.zipWith SqlPart.render numbers parts)

/-- Consecutive numbers for counts of values. -/
def numbersFrom : Nat → List Nat → List (List Nat)
  | _, [] => []
  | start, count :: counts => List.range' start count :: numbersFrom (start + count) counts

def counts (parts : List (SqlPart V)) : List Nat := parts.map fun part => part.values.length

theorem map_length_numbersFrom (start : Nat) (counts : List Nat) :
    (numbersFrom start counts).map List.length = counts := by
  induction counts generalizing start with
  | nil => rfl
  | cons count counts ih => rw [numbersFrom, List.map_cons, List.length_range', ih]

theorem flatten_numbersFrom (start : Nat) (counts : List Nat) :
    (numbersFrom start counts).flatten = List.range' start counts.sum := by
  induction counts generalizing start with
  | nil => rfl
  | cons count counts ih =>
      rw [numbersFrom, List.flatten_cons, ih, List.sum_cons, List.range'_append_1]

/-- A part is rendered with the next numbers, and only without sets can the text be cached. -/
theorem renderPart_eq (s : Rendering V) {part : SqlPart V} (h : part.unbound = none) :
    renderPart s part =
      .ok (part.render (List.range' (s.values.length + 1) part.values.length),
        ⟨s.values ++ part.values, s.canBeCached && !part.isSet⟩) := by
  cases part with
  | raw text => simp [renderPart, SqlPart.render, SqlPart.values, SqlPart.isSet]
  | placeholder name value =>
      cases value with
      | none => cases h
      | some value =>
          cases value with
          | value value =>
              simp [renderPart, SqlPart.render, SqlPart.values, SqlPart.isSet,
                PlaceholderValue.isSet]
          | set values =>
              simp [renderPart, SqlPart.render, SqlPart.values, SqlPart.isSet,
                PlaceholderValue.isSet]

theorem renderParts_eq (s : Rendering V) {parts : List (SqlPart V)} (h : Bound parts) :
    renderParts parts s =
      .ok (List.zipWith SqlPart.render (numbersFrom (s.values.length + 1) (counts parts)) parts,
        ⟨s.values ++ parts.flatMap SqlPart.values,
          s.canBeCached && parts.all fun part => !part.isSet⟩) := by
  induction parts generalizing s with
  | nil => simp [renderParts, counts, numbersFrom]
  | cons part parts ih =>
      obtain ⟨hpart, hparts⟩ := List.forall_mem_cons.mp h
      rw [renderParts, renderPart_eq s hpart]
      change (renderParts parts _ >>= _) = _
      rw [ih _ hparts]
      simp only [counts, List.map_cons, numbersFrom, List.zipWith_cons_cons, List.flatMap_cons,
        List.all_cons, List.append_assoc, List.length_append, Bool.and_assoc,
        Nat.add_right_comm _ 1]
      rfl

/-- Rendering fails with the first placeholder that has no value. -/
theorem renderParts_error (s : Rendering V) {parts : List (SqlPart V)} {name : String}
    (h : parts.findSome? SqlPart.unbound = some name) :
    renderParts parts s = .error ⟨name⟩ := by
  induction parts generalizing s with
  | nil => cases h
  | cons part parts ih =>
      rw [renderParts]
      cases hpart : part.unbound with
      | none =>
          rw [List.findSome?_cons, hpart] at h
          rw [renderPart_eq s hpart]
          change (renderParts parts _ >>= _) = _
          rw [ih _ h]
          rfl
      | some other =>
          rw [List.findSome?_cons, hpart] at h
          cases h
          cases part with
          | raw text => cases hpart
          | placeholder partName value =>
              cases value with
              | none =>
                  cases hpart
                  rfl
              | some value => cases hpart

theorem partValues_eq (part : SqlPart V) : partValues part =
    match part.unbound with
    | none => .ok part.values
    | some name => .error ⟨name⟩ := by
  cases part with
  | raw text => rfl
  | placeholder name value =>
      cases value with
      | none => rfl
      | some value => cases value <;> rfl

theorem mapM_partValues {parts : List (SqlPart V)} (h : Bound parts) :
    parts.mapM partValues = .ok (parts.map SqlPart.values) := by
  induction parts with
  | nil => rfl
  | cons part parts ih =>
      obtain ⟨hpart, hparts⟩ := List.forall_mem_cons.mp h
      rw [List.mapM_cons, ih hparts, partValues_eq, hpart]
      rfl

theorem mapM_partValues_error {parts : List (SqlPart V)} {name : String}
    (h : parts.findSome? SqlPart.unbound = some name) :
    parts.mapM partValues = .error ⟨name⟩ := by
  induction parts with
  | nil => cases h
  | cons part parts ih =>
      rw [List.mapM_cons, partValues_eq]
      rw [List.findSome?_cons] at h
      cases hpart : part.unbound with
      | none =>
          rw [hpart] at h
          rw [ih h]
          rfl
      | some other =>
          rw [hpart] at h
          cases h
          rfl

/-- The text of bound parts, with numbers from one. -/
def numberedSql (parts : List (SqlPart V)) : String :=
  " ".intercalate (List.zipWith SqlPart.render (numbersFrom 1 (counts parts)) parts)

theorem numbered_numberedSql (parts : List (SqlPart V)) :
    Numbered parts (numberedSql parts) (parts.flatMap SqlPart.values) where
  values_eq := rfl
  sql_eq := by
    refine ⟨numbersFrom 1 (counts parts), ?_, map_length_numbersFrom 1 _, rfl⟩
    rw [flatten_numbersFrom, List.length_flatMap]
    rfl

/-- What a statement without a cached text is rendered to. -/
theorem toSql_eq {statement : Statement V} {cache : Cache V} (hnew : statement.cachedSql = none)
    (h : Bound statement.parts) : statement.toSql cache =
      (.ok (numberedSql statement.parts, statement.parts.flatMap SqlPart.values),
        if statement.parts.all fun part => !part.isSet then
          cache.keep statement.sql (numberedSql statement.parts)
        else cache) := by
  rw [Statement.toSql, hnew]
  dsimp only
  rw [renderParts_eq _ h]
  simp only [List.length_nil, Nat.zero_add, List.nil_append, Bool.true_and]
  rfl

theorem toSql_error {statement : Statement V} {cache : Cache V} {name : String}
    (h : statement.parts.findSome? SqlPart.unbound = some name) :
    statement.toSql cache = (.error ⟨name⟩, cache) := by
  rw [Statement.toSql]
  split
  next => rw [mapM_partValues_error h]; rfl
  next => rw [renderParts_error _ h]

theorem bound_or_unbound (parts : List (SqlPart V)) :
    Bound parts ∨ ∃ name, parts.findSome? SqlPart.unbound = some name := by
  cases h : parts.findSome? SqlPart.unbound with
  | none => exact .inl (List.findSome?_eq_none_iff.mp h)
  | some name => exact .inr ⟨name, rfl⟩

/-! ## The cache -/

/-- The names of `kind` for a text are bound to sets, and the others to values. -/
abbrev Kind := String → String → Bool

/-- The parts of a text are bound in the way of their names. -/
def BindsAs (kind : Kind) (sql : String) (parts : List (SqlPart V)) : Prop :=
  ∀ name value, .placeholder name (some value) ∈ parts → value.isSet = kind sql name

/-- A text with numbers that is kept for a SQL text: all its names are bound to values. -/
structure Keeps (kind : Kind) (sql cachedSql : String) (parts : List (SqlPart V)) : Prop where
  names : ∀ name, .placeholder name none ∈ parts.map SqlPart.clear → kind sql name = false
  eq : ∀ bound : List (SqlPart V), bound.map SqlPart.clear = parts.map SqlPart.clear →
    Bound bound → BindsAs kind sql bound → cachedSql = numberedSql bound

section Keeping

variable {kind : Kind} {sql cachedSql : String} {parts others : List (SqlPart V)}

theorem Keeps.congr (h : Keeps kind sql cachedSql parts)
    (hclear : others.map SqlPart.clear = parts.map SqlPart.clear) :
    Keeps kind sql cachedSql others where
  names name hname := h.names name (hclear ▸ hname)
  eq bound hbound := h.eq bound (hbound.trans hclear)

theorem isSet_of_bindsAs (hbinds : BindsAs kind sql parts)
    (hnames : ∀ name, .placeholder name none ∈ parts.map SqlPart.clear → kind sql name = false) :
    ∀ part ∈ parts, part.isSet = false := by
  intro part hpart
  cases part with
  | raw text => rfl
  | placeholder name value =>
      cases value with
      | none => rfl
      | some value =>
          have hkind := hnames name (List.mem_map_of_mem hpart)
          exact (hbinds name value hpart).trans hkind

theorem render_clear (numbers : List Nat) (part : SqlPart V) :
    part.clear.render numbers = part.render numbers := by
  cases part <;> rfl

/-- Parts that are bound to values alone have one value for each placeholder. -/
theorem length_values {part : SqlPart V} (hbound : part.unbound = none)
    (hset : part.isSet = false) :
    part.values.length = if part.clear.unbound.isSome then 1 else 0 := by
  cases part with
  | raw text => rfl
  | placeholder name value =>
      cases value with
      | none => cases hbound
      | some value =>
          cases value with
          | value value => rfl
          | set values => cases hset

theorem numberedSql_congr (hparts : Bound parts) (hothers : Bound others)
    (hset : ∀ part ∈ parts, part.isSet = false) (hset' : ∀ part ∈ others, part.isSet = false)
    (hclear : others.map SqlPart.clear = parts.map SqlPart.clear) :
    numberedSql others = numberedSql parts := by
  have hcounts {list : List (SqlPart V)} (hbound : Bound list)
      (hvalues : ∀ part ∈ list, part.isSet = false) : counts list =
        (list.map SqlPart.clear).map fun part => if part.unbound.isSome then 1 else 0 := by
    rw [counts, List.map_map]
    exact List.map_congr_left fun part hpart =>
      length_values (hbound part hpart) (hvalues part hpart)
  have hrender (numbers : List (List Nat)) (list : List (SqlPart V)) :
      List.zipWith SqlPart.render numbers list =
        List.zipWith SqlPart.render numbers (list.map SqlPart.clear) := by
    rw [List.zipWith_map_right]
    congr 1
    funext numbers part
    exact (render_clear numbers part).symm
  rw [numberedSql, numberedSql, hrender _ others, hrender _ parts, hcounts hothers hset',
    hcounts hparts hset, hclear]

/-- What is rendered without sets can be kept for its text. -/
theorem keeps_numberedSql (hbound : Bound parts) (hbinds : BindsAs kind sql parts)
    (hset : ∀ part ∈ parts, part.isSet = false) :
    Keeps kind sql (numberedSql parts) parts := by
  have hnames : ∀ name, .placeholder name none ∈ parts.map SqlPart.clear →
      kind sql name = false := by
    intro name hname
    obtain ⟨part, hpart, hclear⟩ := List.mem_map.mp hname
    cases part with
    | raw text => cases hclear
    | placeholder partName value =>
        cases hclear
        cases value with
        | none => exact absurd (hbound _ hpart) (Option.some_ne_none name)
        | some value => exact (hbinds name value hpart).symm.trans (hset _ hpart)
  refine ⟨hnames, fun others hclear hothers hbinds' => ?_⟩
  have hset' := isSet_of_bindsAs hbinds' fun name hname => hnames name (hclear ▸ hname)
  exact (numberedSql_congr hbound hothers hset hset' hclear).symm

end Keeping

/-- The entries of a cache are the parts of their texts. -/
def CacheInv (alphanumeric : Char → Bool) (kind : Kind) (cache : Cache V) : Prop :=
  ∀ sql parts cachedSql, cache sql = some (parts, cachedSql) →
    splitSqlParts alphanumeric sql = .ok parts ∧ ∀ text ∈ cachedSql, Keeps kind sql text parts

/-- A statement of a SQL text, with values for some of its placeholders. -/
structure StatementInv (alphanumeric : Char → Bool) (kind : Kind) (sql : String)
    (statement : Statement V) : Prop where
  parts : ∃ parts, splitSqlParts alphanumeric sql = .ok parts ∧
    statement.parts.map SqlPart.clear = parts.map SqlPart.clear
  binds : BindsAs kind sql statement.parts
  cached : ∀ text ∈ statement.cachedSql, Keeps kind sql text statement.parts
  original : ∀ original ∈ statement.sql, original = sql

section Cache

variable {alphanumeric : Char → Bool} {kind : Kind} {sql : String} {cache : Cache V}
  {statement : Statement V}

/-- A new statement has the parts of its text, from the cache or not. -/
theorem CacheInv.new (hcache : CacheInv alphanumeric kind cache) (sql : String) :
    CacheInv alphanumeric kind (Statement.new alphanumeric sql cache).2 ∧
      match splitSqlParts (V := V) alphanumeric sql with
      | .error error => (Statement.new alphanumeric sql cache).1 = .error error
      | .ok parts => ∃ statement, (Statement.new alphanumeric sql cache).1 = .ok statement ∧
          statement.parts = parts ∧ StatementInv alphanumeric kind sql statement := by
  have hunbound {parts : List (SqlPart V)} (h : splitSqlParts alphanumeric sql = .ok parts) :
      BindsAs kind sql parts := by
    intro name value hmem
    have := (splitSqlParts_spec h).clear _ hmem
    cases this
  rw [Statement.new]
  cases hfound : cache sql with
  | some entry =>
      obtain ⟨parts, cachedSql⟩ := entry
      obtain ⟨hsplit, hkeeps⟩ := hcache sql parts cachedSql hfound
      refine ⟨hcache, ?_⟩
      rw [hsplit]
      exact ⟨_, rfl, rfl, ⟨parts, hsplit, rfl⟩, hunbound hsplit, hkeeps, fun _ h => nomatch h⟩
  | none =>
      dsimp only
      cases hsplit : splitSqlParts (V := V) alphanumeric sql with
      | error error => exact ⟨hcache, rfl⟩
      | ok parts =>
          refine ⟨?_, _, rfl, rfl, ⟨parts, hsplit, rfl⟩, hunbound hsplit, nofun, ?_⟩
          · intro other parts' cachedSql' h
            dsimp only at h
            rw [Function.update_apply] at h
            split at h
            next heq =>
              subst heq
              cases h
              exact ⟨hsplit, fun _ h => nomatch h⟩
            next => exact hcache other parts' cachedSql' h
          · rintro original h
            cases h
            rfl

theorem StatementInv.bind (h : StatementInv alphanumeric kind sql statement) {name : String}
    {value : PlaceholderValue V} (hkind : value.isSet = kind sql name) :
    StatementInv alphanumeric kind sql (statement.bind name value) := by
  have hclear : (statement.bind name value).parts.map SqlPart.clear =
      statement.parts.map SqlPart.clear := by
    rw [Statement.bind, List.map_map]
    apply List.map_congr_left
    intro part _
    cases part <;> rfl
  obtain ⟨⟨parts, hsplit, hparts⟩, hbinds, hcached, horiginal⟩ := h
  refine ⟨⟨parts, hsplit, hclear.trans hparts⟩, ?_, fun text htext =>
    (hcached text htext).congr hclear, horiginal⟩
  intro partName partValue hmem
  obtain ⟨part, hpart, heq⟩ := List.mem_map.mp hmem
  cases part with
  | raw text => cases heq
  | placeholder other otherValue =>
      rw [SqlPart.bind, SqlPart.placeholder.injEq] at heq
      obtain ⟨rfl, heq⟩ := heq
      split at heq
      next hname =>
        cases heq
        rw [hkind, hname]
      next =>
        subst heq
        exact hbinds other partValue hpart

/-- A statement is rendered to the same text and values as without a cache, and the cache stays
that of the texts. -/
theorem StatementInv.toSql (h : StatementInv alphanumeric kind sql statement)
    (hcache : CacheInv alphanumeric kind cache) {alone : Statement V}
    (hparts : alone.parts = statement.parts) (hnew : alone.cachedSql = none) (other : Cache V) :
    (statement.toSql cache).1 = (alone.toSql other).1 ∧
      CacheInv alphanumeric kind (statement.toSql cache).2 := by
  rcases bound_or_unbound statement.parts with hbound | ⟨name, hname⟩
  · rw [toSql_eq hnew (hparts ▸ hbound), hparts]
    cases hcached : statement.cachedSql with
    | some text =>
        have hkeeps := h.cached text hcached
        rw [Statement.toSql, hcached]
        dsimp only
        rw [mapM_partValues hbound, hkeeps.eq _ rfl hbound h.binds]
        exact ⟨rfl, hcache⟩
    | none =>
        rw [toSql_eq hcached hbound]
        refine ⟨rfl, ?_⟩
        dsimp only
        split
        next hset =>
          have hset : ∀ part ∈ statement.parts, part.isSet = false := fun part hpart => by
            simpa using List.all_eq_true.mp hset part hpart
          unfold Cache.keep
          cases horiginal : statement.sql with
          | none => exact hcache
          | some original =>
              obtain rfl := h.original original horiginal
              dsimp only
              cases hfound : cache original with
              | none => exact hcache
              | some entry =>
                  obtain ⟨parts, cachedSql⟩ := entry
                  obtain ⟨hsplit, -⟩ := hcache original parts cachedSql hfound
                  obtain ⟨parts', hsplit', hclear⟩ := h.parts
                  obtain rfl : parts = parts' := Except.ok.inj (hsplit.symm.trans hsplit')
                  intro other parts' cachedSql' hother
                  dsimp only at hother
                  rw [Function.update_apply] at hother
                  split at hother
                  next heq =>
                    subst heq
                    cases hother
                    refine ⟨hsplit, fun text htext => ?_⟩
                    cases htext
                    exact (keeps_numberedSql hbound h.binds hset).congr hclear.symm
                  next => exact hcache other parts' cachedSql' hother
        next => exact hcache
  · rw [toSql_error hname, toSql_error (hparts ▸ hname)]
    exact ⟨rfl, hcache⟩

end Cache

/-! ## Sessions -/

/-- What callers do with the statements that they hold. -/
inductive Event (V : Type) where
  | new (slot : Nat) (sql : String)
  | bind (slot : Nat) (name : String) (value : PlaceholderValue V)
  | toSql (slot : Nat)

/-- What a caller sees of it. -/
inductive Response (V : Type) where
  | opened (failure : Option SqlParseError)
  | bound
  | rendered (result : Except MissingPlaceholder (String × List V))
  | missing

/-- The shared cache, and the statements that are held with their texts. -/
structure Session (V : Type) where
  cache : Cache V
  statements : Nat → Option (String × Statement V)

namespace Session

def empty : Session V := ⟨Cache.empty, fun _ => none⟩

def hold (s : Session V) (cache : Cache V) (slot : Nat) (held : Option (String × Statement V)) :
    Session V := ⟨cache, Function.update s.statements slot held⟩

/-- An event with the shared cache. Rendering takes the statement. -/
def step (alphanumeric : Char → Bool) (s : Session V) : Event V → Session V × Response V
  | .new slot sql =>
      match Statement.new alphanumeric sql s.cache with
      | (.error error, cache) => (s.hold cache slot none, .opened (some error))
      | (.ok statement, cache) => (s.hold cache slot (some (sql, statement)), .opened none)
  | .bind slot name value =>
      match s.statements slot with
      | none => (s, .missing)
      | some (sql, statement) =>
          (s.hold s.cache slot (some (sql, statement.bind name value)), .bound)
  | .toSql slot =>
      match s.statements slot with
      | none => (s, .missing)
      | some (_, statement) =>
          (s.hold (statement.toSql s.cache).2 slot none, .rendered (statement.toSql s.cache).1)

/-- An event without a cache. -/
def stepAlone (alphanumeric : Char → Bool) (s : Session V) (event : Event V) :
    Session V × Response V := step alphanumeric ⟨Cache.empty, s.statements⟩ event

def run (next : Session V → Event V → Session V × Response V) (s : Session V) :
    List (Event V) → List (Response V)
  | [] => []
  | event :: events => (next s event).2 :: run next (next s event).1 events

end Session

/-- An event binds the name of a text in its way. -/
def Event.BindsAlike (kind : Kind) (s : Session V) : Event V → Prop
  | .bind slot name value =>
      ∀ sql statement, s.statements slot = some (sql, statement) → value.isSet = kind sql name
  | _ => True

/-- All events of a run bind each name of a text in one way. -/
def BindsAlike (alphanumeric : Char → Bool) (kind : Kind) : Session V → List (Event V) → Prop
  | _, [] => True
  | s, event :: events =>
      event.BindsAlike kind s ∧ BindsAlike alphanumeric kind (s.step alphanumeric event).1 events

/-- A statement and the one without a cache. -/
structure Mirrors (alphanumeric : Char → Bool) (kind : Kind) (held alone : String × Statement V) :
    Prop where
  sql : alone.1 = held.1
  inv : StatementInv alphanumeric kind held.1 held.2
  parts : alone.2.parts = held.2.parts
  cachedSql : alone.2.cachedSql = none

/-- A session and the one without a cache. -/
structure SessionInv (alphanumeric : Char → Bool) (kind : Kind) (s alone : Session V) : Prop where
  cache : CacheInv alphanumeric kind s.cache
  statements : ∀ slot,
    Option.Rel (Mirrors alphanumeric kind) (s.statements slot) (alone.statements slot)

section Sessions

variable {alphanumeric : Char → Bool} {kind : Kind} {s alone : Session V}

theorem SessionInv.hold (h : SessionInv alphanumeric kind s alone) {cache : Cache V}
    (hcache : CacheInv alphanumeric kind cache) (other : Cache V) (slot : Nat)
    {held mirror : Option (String × Statement V)}
    (hheld : Option.Rel (Mirrors alphanumeric kind) held mirror) :
    SessionInv alphanumeric kind (s.hold cache slot held) (alone.hold other slot mirror) where
  cache := hcache
  statements other := by
    rw [Session.hold, Session.hold]
    dsimp only
    rw [Function.update_apply, Function.update_apply]
    split
    next => exact hheld
    next => exact h.statements other

/-- An event is answered as without a cache. -/
theorem SessionInv.step (h : SessionInv alphanumeric kind s alone) {event : Event V}
    (hbinds : event.BindsAlike kind s) :
    (s.step alphanumeric event).2 = (alone.stepAlone alphanumeric event).2 ∧
      SessionInv alphanumeric kind (s.step alphanumeric event).1
        (alone.stepAlone alphanumeric event).1 := by
  cases event with
  | new slot sql =>
      have hempty : CacheInv alphanumeric kind (Cache.empty : Cache V) := fun _ _ _ h => nomatch h
      have hnew := h.cache.new sql
      have hmirror := hempty.new sql
      have hfresh {parts : List (SqlPart V)} (hsplit : splitSqlParts alphanumeric sql = .ok parts) :
          Statement.new alphanumeric sql Cache.empty = (.ok ⟨none, some sql, parts⟩,
            Function.update Cache.empty sql (some (parts, none))) := by
        rw [Statement.new]
        dsimp only [Cache.empty]
        rw [hsplit]
      rw [Session.step, Session.stepAlone, Session.step]
      dsimp only
      generalize hshared : Statement.new alphanumeric sql s.cache = shared at hnew
      obtain ⟨result, cache⟩ := shared
      obtain ⟨hcache, hresult⟩ := hnew
      dsimp only at hcache hresult ⊢
      cases hsplit : splitSqlParts (V := V) alphanumeric sql with
      | error error =>
          rw [hsplit] at hresult
          have hfail : Statement.new alphanumeric sql Cache.empty =
              ((.error error, Cache.empty) : Except SqlParseError (Statement V) × Cache V) := by
            rw [Statement.new]
            dsimp only [Cache.empty]
            rw [hsplit]
          rw [hfail]
          cases hresult
          exact ⟨rfl, h.hold hcache _ slot .none⟩
      | ok parts =>
          rw [hsplit] at hresult
          obtain ⟨statement, rfl, hparts, hinv⟩ := hresult
          rw [hfresh hsplit]
          exact ⟨rfl, h.hold hcache _ slot (.some ⟨rfl, hinv, hparts.symm, rfl⟩)⟩
  | bind slot name value =>
      have hslot := h.statements slot
      rw [Session.step, Session.stepAlone, Session.step]
      dsimp only
      generalize hheld : s.statements slot = held at hslot
      generalize alone.statements slot = mirror at hslot
      cases hslot with
      | none => exact ⟨rfl, h.cache, h.statements⟩
      | @some held mirror hmirrors =>
          obtain ⟨hsql, hinv, hparts, hcached⟩ := hmirrors
          have hkind : value.isSet = kind held.1 name := hbinds held.1 held.2 hheld
          refine ⟨rfl, h.hold h.cache _ slot (.some ⟨hsql, hinv.bind hkind, ?_, hcached⟩)⟩
          exact congrArg (List.map (SqlPart.bind name value)) hparts
  | toSql slot =>
      have hslot := h.statements slot
      rw [Session.step, Session.stepAlone, Session.step]
      dsimp only
      generalize s.statements slot = held at hslot
      generalize alone.statements slot = mirror at hslot
      cases hslot with
      | none => exact ⟨rfl, h.cache, h.statements⟩
      | @some held mirror hmirrors =>
          obtain ⟨hresult, hcache⟩ :=
            hmirrors.inv.toSql h.cache hmirrors.parts hmirrors.cachedSql Cache.empty
          exact ⟨congrArg Response.rendered hresult, h.hold hcache _ slot .none⟩

theorem SessionInv.run (h : SessionInv alphanumeric kind s alone) {events : List (Event V)}
    (hbinds : BindsAlike alphanumeric kind s events) :
    Session.run (Session.step alphanumeric) s events =
      Session.run (Session.stepAlone alphanumeric) alone events := by
  induction events generalizing s alone with
  | nil => rfl
  | cons event events ih =>
      obtain ⟨hevent, hevents⟩ := hbinds
      obtain ⟨hresponse, hnext⟩ := h.step hevent
      rw [Session.run, Session.run, hresponse, ih hnext hevents]

theorem sessionInv_empty : SessionInv alphanumeric kind (Session.empty : Session V) .empty where
  cache := fun _ _ _ h => nomatch h
  statements := fun _ => .none

end Sessions

/-- A SQL text is cut into parts that are joined to it, without a placeholder in a literal. Bound
parts are rendered with numbers from one and with their values in this order. And the statements of
a run are rendered with the shared cache as without one, if each name of a text is always bound in
the same way. -/
theorem statementRendering (V : Type) (alphanumeric : Char → Bool) :
    (∀ (input : String) (parts : List (SqlPart V)),
      splitSqlParts alphanumeric input = .ok parts →
        source parts = input.toList ∧ OutsideLiterals parts) ∧
    (∀ (statement : Statement V) (cache : Cache V), statement.cachedSql = none →
      Bound statement.parts → ∃ sql values, (statement.toSql cache).1 = .ok (sql, values) ∧
        Numbered statement.parts sql values) ∧
    (∀ (kind : Kind) (events : List (Event V)), BindsAlike alphanumeric kind .empty events →
      Session.run (Session.step alphanumeric) .empty events =
        Session.run (Session.stepAlone alphanumeric) .empty events) := by
  refine ⟨fun input parts h => ?_, fun statement cache hnew hbound => ?_, fun kind events h => ?_⟩
  · have hsplit := splitSqlParts_spec h
    exact ⟨hsplit.source_eq, hsplit.outside⟩
  · rw [toSql_eq hnew hbound]
    exact ⟨_, _, rfl, numbered_numberedSql statement.parts⟩
  · exact sessionInv_empty.run h

/-- A text with a colon in a literal. -/
theorem splitSqlParts_quoted : splitSqlParts (fun _ => false) "':x'=:b" =
    .ok [.raw "':x'=", .placeholder "b" (none : Option (PlaceholderValue Nat))] := by
  have hchars : "':x'=:b".toList = ['\'', ':', 'x', '\'', '=', ':', 'b'] := by decide
  rw [splitSqlParts, hchars]
  simp [splitFrom, scanLiteral, isNameChar, flush]
  decide

/-- A statement for a value and a set of two. -/
def boundStatement : Statement Nat :=
  ⟨none, none, [.raw "a = ", .placeholder "b" (some (.value 1)), .raw " AND c IN (",
    .placeholder "c" (some (.set [2, 3])), .raw ")"]⟩

/-- The placeholder of a text is outside of its literal, a statement gets the numbers from one to
three, and of two statements of a text the second takes the text that the first has rendered. -/
theorem statementRendering_twice :
    let events : List (Event Nat) :=
      [.new 0 "SELECT a FROM t WHERE b = :b", .bind 0 "b" (.value 1), .toSql 0,
        .new 1 "SELECT a FROM t WHERE b = :b", .bind 1 "b" (.value 2), .toSql 1]
    OutsideLiterals [.raw "':x'=", .placeholder "b" (none : Option (PlaceholderValue Nat))] ∧
    (∃ sql, (boundStatement.toSql .empty).1 = .ok (sql, [1, 2, 3]) ∧
      Numbered boundStatement.parts sql [1, 2, 3]) ∧
    Session.run (Session.step fun _ => false) .empty events =
      Session.run (Session.stepAlone fun _ => false) .empty events := by
  intro events
  obtain ⟨hsplit, hrendered, hcached⟩ := statementRendering Nat fun _ => false
  refine ⟨(hsplit _ _ splitSqlParts_quoted).2, ?_, hcached (fun _ _ => false) events ?_⟩
  · obtain ⟨sql, values, hsql, hnumbered⟩ :=
      hrendered boundStatement .empty rfl (by unfold Bound; decide)
    have hvalues : values = [1, 2, 3] := hnumbered.values_eq
    subst hvalues
    exact ⟨sql, hsql, hnumbered⟩
  · exact ⟨trivial, fun _ _ _ => rfl, trivial, trivial, fun _ _ _ => rfl, trivial, trivial⟩

end Sql

end Cdk
