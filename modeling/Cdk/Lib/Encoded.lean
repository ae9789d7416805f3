import Cdk.Lib.Outcome
import Cdk.Lib.Table
import Mathlib.Data.List.Induction

/-!
# Tables of encoded rows

A table that holds the encodings of the rows of another one, in the same
order, under keys that encode the keys. Writing, deleting and looking up by key
commute with the encoding, and where every encoded row is decoded again, reading
gives the rows of the first table.
-/

namespace Lib

variable {κ κ' ρ ρ' : Type} {key : ρ → κ} {key' : ρ' → κ'}

/-- The rows of the second table are the encoded rows of the first. -/
def Encoded (enc : ρ → ρ') (t : Table key) (t' : Table key') : Prop := t'.rows = t.rows.map enc

namespace Encoded

variable {enc : ρ → ρ'} {t : Table key} {t' : Table key'} {r : ρ}

theorem empty : Encoded enc (Table.empty : Table key) (Table.empty : Table key') := rfl

/-- Deleting by predicates that agree on encoded rows. -/
theorem delete (h : Encoded enc t t') {p : ρ → Bool} {p' : ρ' → Bool}
    (hp : ∀ r ∈ t.rows, p' (enc r) = p r) : Encoded enc (t.delete p) (t'.delete p') := by
  simp only [Encoded, Table.delete]
  rw [h, List.filter_map]
  congr 1
  apply List.filter_congr
  intro r hr
  simp [hp r hr]

/-- Rewriting rows by functions that commute with the encoding. -/
theorem update (h : Encoded enc t t') {f : ρ → ρ} {f' : ρ' → ρ'} (hf : ∀ r, key (f r) = key r)
    (hf' : ∀ r, key' (f' r) = key' r) (hcomm : ∀ r ∈ t.rows, f' (enc r) = enc (f r)) :
    Encoded enc (t.update f hf) (t'.update f' hf') := by
  simp only [Encoded, Table.update_rows]
  rw [h, List.map_map, List.map_map]
  exact List.map_congr_left hcomm

variable [DecidableEq κ] [DecidableEq κ'] {f : κ → κ'}

/-- The key of an encoded row is taken exactly when the key of the row is. -/
theorem insert?_eq_none (h : Encoded enc t t') (hf : Function.Injective f)
    (hkey : ∀ r, key' (enc r) = f (key r)) :
    t'.insert? (enc r) = none ↔ t.insert? r = none := by
  rw [Table.insert?_eq_none, Table.insert?_eq_none, h]
  constructor
  · rintro ⟨r', hr', hk⟩
    obtain ⟨r₀, hr₀, rfl⟩ := List.mem_map.mp hr'
    rw [hkey, hkey] at hk
    exact ⟨r₀, hr₀, hf hk⟩
  · rintro ⟨r₀, hr₀, hk⟩
    exact ⟨enc r₀, List.mem_map_of_mem hr₀, by rw [hkey, hkey, hk]⟩

theorem upsert (h : Encoded enc t t') (hf : Function.Injective f)
    (hkey : ∀ r, key' (enc r) = f (key r)) :
    Encoded enc (t.upsert r) (t'.upsert (enc r)) := by
  unfold Table.upsert
  cases hnone : t.insert? r with
  | some t₁ =>
      cases hnone' : t'.insert? (enc r) with
      | none =>
          rw [(insert?_eq_none h hf hkey).mp hnone'] at hnone
          cases hnone
      | some t₁' =>
          simp only [Encoded]
          rw [(Table.insert?_eq_some.mp hnone).2, (Table.insert?_eq_some.mp hnone').2, h]
          simp
  | none =>
      rw [(insert?_eq_none h hf hkey).mpr hnone]
      apply update h _ _
      intro r' _
      by_cases hk : key r' = key r
      · rw [if_pos hk, if_pos (by rw [hkey, hkey, hk])]
      · rw [if_neg hk, if_neg fun hk' => hk (hf (by rwa [hkey, hkey] at hk'))]

theorem find? (h : Encoded enc t t') (hf : Function.Injective f)
    (hkey : ∀ r, key' (enc r) = f (key r)) (k : κ) :
    t'.find? (f k) = (t.find? k).map enc := by
  have hpred : ((fun r => decide (key' r = f k)) ∘ enc) = fun r => decide (key r = k) := by
    funext r
    simp [hkey, hf.eq_iff]
  rw [Table.find?, h, List.find?_map, hpred, Table.find?]

/-! ### Reading -/

variable {ε : Type} {decode : ρ' → Outcome ε ρ}

omit [DecidableEq κ] [DecidableEq κ'] in
theorem mapM_decode (h : Encoded enc t t') (hdecode : ∀ r ∈ t.rows, decode (enc r) = .ok r) :
    t'.rows.mapM decode = .ok t.rows := by
  rw [h]
  clear h
  generalize t.rows = rows at hdecode ⊢
  induction rows with
  | nil => rfl
  | cons r rest ih =>
      obtain ⟨hr, hrest⟩ := List.forall_mem_cons.mp hdecode
      rw [List.map_cons, List.mapM_cons, hr, Outcome.bind_ok, ih hrest, Outcome.bind_ok,
        Outcome.pure_eq]

/-- Decode the row of a key, if there is one. -/
def decodeOne (decode : ρ' → Outcome ε ρ) : Option ρ' → Outcome ε (Option ρ)
  | some row => some <$> decode row
  | none => .ok none

theorem decodeOne_find? (h : Encoded enc t t') (hf : Function.Injective f)
    (hkey : ∀ r, key' (enc r) = f (key r)) (hdecode : ∀ r ∈ t.rows, decode (enc r) = .ok r)
    (k : κ) : decodeOne decode (t'.find? (f k)) = .ok (t.find? k) := by
  rw [h.find? hf hkey]
  cases hfind : t.find? k with
  | none => rfl
  | some r =>
      rw [Option.map_some, decodeOne, hdecode r (Table.find?_eq_some.mp hfind).1]
      rfl

/-- Decode the rows that can be decoded and keep those that a predicate selects. -/
def decodeWhere (decode : ρ' → Outcome ε ρ) (p : ρ → Bool) (rows : List ρ') : List ρ :=
  rows.filterMap fun row =>
    match decode row with
    | .ok r => if p r then some r else none
    | _ => none

omit [DecidableEq κ] [DecidableEq κ'] in
theorem decodeWhere_eq (h : Encoded enc t t') (hdecode : ∀ r ∈ t.rows, decode (enc r) = .ok r)
    (p : ρ → Bool) : decodeWhere decode p t'.rows = t.rows.filter p := by
  rw [h]
  clear h
  unfold decodeWhere
  generalize t.rows = rows at hdecode ⊢
  induction rows with
  | nil => rfl
  | cons r rest ih =>
      obtain ⟨hr, hrest⟩ := List.forall_mem_cons.mp hdecode
      rw [List.map_cons, List.filterMap_cons, hr, List.filter_cons]
      cases hp : p r with
      | false => simpa [hp] using ih hrest
      | true => simpa [hp] using ih hrest

end Encoded

/-! ## Writing over a present row -/

namespace Table

variable [DecidableEq κ] {t : Table key} {r : ρ}

/-- Insert a row, or put in the place of the row with its key what `set` makes of the two. -/
def upsertWith (t : Table key) (set : ρ → ρ → ρ) (r : ρ) : Table key :=
  t.upsert ((t.find? (key r)).elim r fun old => set old r)

/-- Where `set` only gives the new row, this is plain writing. -/
theorem upsertWith_eq_upsert {set : ρ → ρ → ρ}
    (h : ∀ old ∈ t.rows, key old = key r → set old r = r) : t.upsertWith set r = t.upsert r := by
  unfold upsertWith
  cases hfind : t.find? (key r) with
  | none => rfl
  | some old =>
      obtain ⟨hold, hk⟩ := find?_eq_some.mp hfind
      rw [Option.elim_some, h old hold hk]

theorem find?_update {f : ρ → ρ} (hf : ∀ r, key (f r) = key r) (k : κ) :
    (t.update f hf).find? k = (t.find? k).map f := by
  rw [find?, find?, update_rows, List.find?_map]
  congr 2
  funext r
  exact congrArg (fun k' => decide (k' = k)) (hf r)

/-- Rows of a table that are rewritten and put back are found as they were rewritten. -/
theorem find?_foldl_upsert_map [DecidableEq ρ] {f : ρ → ρ} (hf : ∀ r, key (f r) = key r)
    {rs : List ρ} (hrs : ∀ r ∈ rs, r ∈ t.rows) (k : κ) :
    ((rs.map f).foldl upsert t).find? k =
      (t.find? k).map fun r => if r ∈ rs then f r else r := by
  induction rs using List.reverseRecOn with
  | nil => simp
  | append_singleton rs last ih =>
      have hlast : last ∈ t.rows := hrs last (by simp)
      rw [List.map_append, List.foldl_append, List.map_singleton, List.foldl_cons,
        List.foldl_nil, find?_upsert, hf, ih fun r hr => hrs r (List.mem_append_left _ hr)]
      split
      next h => rw [find?_eq_some.mpr ⟨hlast, h⟩, Option.map_some, if_pos (by simp)]
      next h =>
        apply Option.map_congr
        intro r hr
        have hne : r ≠ last := fun heq => h (heq ▸ (find?_eq_some.mp hr).2)
        simp [hne]

/-- The rows that a predicate selects are rewritten, and no others. -/
theorem find?_rewrite [DecidableEq ρ] {f : ρ → ρ} (hf : ∀ r, key (f r) = key r) {p : ρ → Bool}
    (k : κ) :
    (((t.rows.filter p).map f).foldl upsert t).find? k =
      (t.find? k).map fun r => if p r then f r else r := by
  rw [find?_foldl_upsert_map hf fun r hr => List.mem_of_mem_filter hr]
  apply Option.map_congr
  intro r hr
  have hmem := (find?_eq_some.mp hr).1
  simp [hmem]

/-- A row that is written is found unless another one with its key is written. -/
theorem find?_foldl_upsert_of_mem {rs : List ρ} (hr : r ∈ rs)
    (hown : ∀ r' ∈ rs, key r' = key r → r' = r) :
    (rs.foldl upsert t).find? (key r) = some r := by
  induction rs using List.reverseRecOn with
  | nil => cases hr
  | append_singleton rs last ih =>
      rw [List.foldl_append, List.foldl_cons, List.foldl_nil, find?_upsert]
      split
      next h => rw [hown last (by simp) h]
      next h =>
        have hne : r ≠ last := fun heq => h (congrArg key heq.symm)
        have hmem : r ∈ rs := by simpa [hne] using hr
        exact ih hmem fun r' hr' => hown r' (List.mem_append_left _ hr')

end Table

end Lib
