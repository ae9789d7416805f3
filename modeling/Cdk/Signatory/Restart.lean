import Cdk.Signatory.Freshness
import Mathlib.Data.List.Dedup

/-!
# Restarting

A start keeps the highest keyset of a configured unit if its fee and the number
of its amounts are those of the configuration. Otherwise it creates a keyset
with the configured fee, but with the amounts of the highest one. The tokens for
authentication go back to their first keyset unless they are configured. A table
that is settled for a configuration is left as it is by a start with it.
-/

namespace Cdk

open Lib

section Settled

variable {ι : Type}

/-- A keyset with the fee and the denominations of a configuration. -/
def AsConfigured (entry : UnitConfig) (k : MintKeySetInfo ι) : Prop :=
  k.inputFeePpk = entry.inputFeePpk ∧ denominations entry.maxOrder = .ok k.amounts

/-- One of the keysets of a unit is the active one. -/
def OnlyActive (keysets : List (MintKeySetInfo ι)) (k : MintKeySetInfo ι) : Prop :=
  k ∈ keysets ∧ ∀ k' ∈ keysets, k'.active = true ↔ k'.id = k.id

/-- The highest keyset of a unit is its active one, and is as configured. -/
def UnitSettled (entry : UnitConfig) (keysets : List (MintKeySetInfo ι)) : Prop :=
  ∃ highest, keysets.argmax indexRank = some highest ∧ highest.derivationPathIndex.isSome ∧
    AsConfigured entry highest ∧ OnlyActive keysets highest

/-- The first keyset for authentication is the active one. -/
def AuthSettled (keysetId : DerivationPath → List Nat → ι) (config : SignatoryConfig)
    (keysets : List (MintKeySetInfo ι)) : Prop :=
  ∃ path, keysetPath config.customPaths .auth 0 = .ok path ∧
    OnlyActive keysets (createNewKeyset keysetId path ⟨.auth, 0, [1], 0⟩)

/-- The active keysets of a table are those of a configuration. -/
structure Settled (keysetId : DerivationPath → List Nat → ι) (config : SignatoryConfig)
    (db : KeysDb ι) : Prop where
  units : ∀ entry ∈ config.supportedUnits.rows, UnitSettled entry (keysetsOf db.rows entry.unit)
  auth : config.supportedUnits.find? .auth = none →
    AuthSettled keysetId config (keysetsOf db.rows .auth)
  others : ∀ k ∈ db.rows, config.withAuth.find? k.unit = none → k.active = false

end Settled

/-! ## The keysets of a unit -/

section Views

variable {ι : Type} [DecidableEq ι] {keysetId : DerivationPath → List Nat → ι}
  {db : KeysDb ι} {info k : MintKeySetInfo ι} {unit : CurrencyUnit}

omit [DecidableEq ι] in
theorem mem_keysetsOf {infos : List (MintKeySetInfo ι)} :
    k ∈ keysetsOf infos unit ↔ k ∈ infos ∧ k.unit = unit := by
  simp [keysetsOf]

omit [DecidableEq ι] in
theorem mem_unitsOf {infos : List (MintKeySetInfo ι)} :
    unit ∈ unitsOf infos ↔ ∃ k ∈ infos, k.unit = unit := by
  rw [unitsOf, List.mem_dedup, List.mem_map]

/-- Storing a keyset does not change those of another unit, unless one of them is overwritten. -/
theorem keysetsOf_storeActive_other (hunit : info.unit ≠ unit)
    (hold : ∀ k ∈ db.rows, k.id = info.id → k.unit ≠ unit) :
    keysetsOf (KeysDb.storeActive info db).rows unit = keysetsOf db.rows unit := by
  have hupsert : keysetsOf (KeysDb.addKeysetInfo info db).rows unit = keysetsOf db.rows unit := by
    apply Table.filter_upsert
    · simpa using hunit
    · intro k hk hid
      simpa using hold k hk hid
  rw [← hupsert]
  unfold keysetsOf KeysDb.storeActive KeysDb.setActiveKeyset
  refine Table.filter_update fun k _ => ?_
  split
  next h => simp [h, hunit]
  next => exact ⟨rfl, fun _ => rfl⟩

/-- A keyset that is stored already is only made active. -/
theorem storeActive_stored (hk : k ∈ db.rows) (hdata : k.SameData info) :
    KeysDb.storeActive info db = KeysDb.setActiveKeyset info.unit info.id db := by
  apply Table.ext_rows
  have hexists : db.insert? info = none := by
    exact Table.insert?_eq_none.mpr ⟨k, hk, hdata.id_eq.symm⟩
  simp only [KeysDb.storeActive, KeysDb.setActiveKeyset, KeysDb.addKeysetInfo, Table.upsert,
    hexists, Table.update_rows, List.map_map]
  apply List.map_congr_left
  intro k' hk'
  by_cases hid : k'.id = info.id
  · obtain rfl : k' = k := Table.eq_of_key hk' hk (hid.trans hdata.id_eq)
    rw [hdata]
    simp
  · simp [hid]

omit [DecidableEq ι] in
/-- The active keyset of a unit with one active keyset. -/
theorem OnlyActive.activeKeyset (h : OnlyActive (keysetsOf db.rows unit) k) :
    KeysDb.activeKeyset unit db = some k := by
  obtain ⟨hk, honly⟩ := h
  obtain ⟨hmem, hunit⟩ := mem_keysetsOf.mp hk
  unfold KeysDb.activeKeyset
  cases hfind : db.rows.find? fun k => k.active ∧ k.unit = unit with
  | none =>
      have hnone := List.find?_eq_none.mp hfind k hmem
      simp [(honly k hk).mpr rfl, hunit] at hnone
  | some k' =>
      have hk' : k'.active = true ∧ k'.unit = unit := by simpa using List.find?_some hfind
      have hmem' := List.mem_of_find?_eq_some hfind
      have hid := (honly k' (mem_keysetsOf.mpr ⟨hmem', hk'.2⟩)).mp hk'.1
      rw [Table.eq_of_key hmem' hmem hid]

theorem OnlyActive.storeActive (hdata : info.active = true) :
    OnlyActive (keysetsOf (KeysDb.storeActive info db).rows info.unit) info := by
  constructor
  · refine mem_keysetsOf.mpr ⟨mem_storeActive.mpr ⟨info, .inl rfl, ?_⟩, rfl⟩
    simp [activeFor, ← hdata]
  · intro k hk
    obtain ⟨hmem, hunit⟩ := mem_keysetsOf.mp hk
    exact storeActive_only hmem hunit

/-! ## The units of a start -/

omit [DecidableEq ι] in
theorem mem_activeUnits {config : SignatoryConfig} {infos : List (MintKeySetInfo ι)} :
    unit ∈ activeUnits config infos ↔
      unit ∈ unitsOf infos ∧ ∃ entry ∈ config.supportedUnits.rows, entry.unit = unit := by
  rw [activeUnits, List.mem_filter, Option.isSome_iff_exists]
  simp only [Table.find?_eq_some]

theorem mem_withAuth {config : SignatoryConfig} {entry : UnitConfig} :
    entry ∈ config.withAuth.rows ↔ entry ∈ config.supportedUnits.rows ∨
      config.supportedUnits.find? .auth = none ∧ entry = ⟨.auth, 0, 1⟩ := by
  unfold SignatoryConfig.withAuth
  cases h : config.supportedUnits.insert? ⟨.auth, 0, 1⟩ with
  | none =>
      obtain ⟨entry', hmem, hunit⟩ := Table.insert?_eq_none.mp h
      have hfind : config.supportedUnits.find? .auth ≠ none := by
        rw [Table.find?_eq_some.mpr ⟨hmem, hunit⟩]
        exact Option.some_ne_none _
      simp [hfind]
  | some table =>
      obtain ⟨hfree, hrows⟩ := Table.insert?_eq_some.mp h
      have hfind : config.supportedUnits.find? .auth = none := Table.find?_eq_none.mpr hfree
      simp [hrows, hfind]

theorem mem_inOrder {order units : List CurrencyUnit} :
    unit ∈ inOrder order units ↔ unit ∈ units := by
  simp only [inOrder, List.mem_append, List.mem_filter, List.mem_dedup, decide_eq_true_eq]
  constructor
  · rintro (⟨-, h⟩ | ⟨h, -⟩) <;> exact h
  · intro h
    by_cases ho : unit ∈ order
    · exact .inl ⟨ho, h⟩
    · exact .inr ⟨h, ho⟩

/-- An element with a greater value than all others is the first greatest one. -/
theorem argmax_of_lt {α : Type} {f : α → Nat} {l : List α} {a : α} (ha : a ∈ l)
    (h : ∀ b ∈ l, b ≠ a → f b < f a) : l.argmax f = some a := by
  cases hmax : l.argmax f with
  | none =>
      rw [List.argmax_eq_none.mp hmax] at ha
      cases ha
  | some b =>
      have hle : f a ≤ f b := List.le_of_mem_argmax ha hmax
      by_cases hb : b = a
      · rw [hb]
      · have hlt := h b (List.argmax_mem hmax) hb
        omega

/-- A new keyset with a higher index than all others of its unit is the highest one. -/
theorem unitSettled_of_created {path : DerivationPath} {spec : KeysetSpec} {entry : UnitConfig}
    (hunit : spec.unit = entry.unit) (hfee : spec.inputFeePpk = entry.inputFeePpk)
    (hamounts : denominations entry.maxOrder = .ok spec.amounts)
    (hrank : ∀ k ∈ keysetsOf db.rows entry.unit, indexRank k ≤ spec.index) :
    UnitSettled entry (keysetsOf
      (KeysDb.storeActive (createNewKeyset keysetId path spec) db).rows entry.unit) := by
  have honly : OnlyActive (keysetsOf
      (KeysDb.storeActive (createNewKeyset keysetId path spec) db).rows entry.unit)
      (createNewKeyset keysetId path spec) := by
    rw [← hunit]
    exact OnlyActive.storeActive rfl
  refine ⟨_, argmax_of_lt honly.1 ?_, rfl, ⟨hfee, hamounts⟩, honly⟩
  intro k hk hne
  obtain ⟨hmem, hkunit⟩ := mem_keysetsOf.mp hk
  obtain ⟨k₀, hk₀, rfl⟩ := mem_storeActive.mp hmem
  have hdata := sameData_activeFor (createNewKeyset keysetId path spec) k₀
  rcases hk₀ with rfl | ⟨hk₀, -⟩
  · exact absurd (by simp [activeFor, createNewKeyset]) hne
  · have hle := hrank k₀ (mem_keysetsOf.mpr ⟨hk₀, by rw [← hkunit, hdata]⟩)
    rw [hdata]
    exact Nat.lt_succ_of_le hle

theorem denominations_length {maxOrder : Nat} {amounts : List Nat}
    (h : denominations maxOrder = .ok amounts) : amounts.length = maxOrder := by
  unfold denominations at h
  split at h
  · cases h
    simp
  · cases h

end Views

/-! ## Starting on a settled table -/

section Fixpoint

variable {ι : Type} [DecidableEq ι] {keysetId : DerivationPath → List Nat → ι}
  {db : KeysDb ι} {config : SignatoryConfig} {k : MintKeySetInfo ι} {unit : CurrencyUnit}

/-- The table when a start has made the keysets of some units active again. -/
def reactivated (units : List CurrencyUnit) (db : KeysDb ι) : KeysDb ι :=
  db.update (fun k => if k.unit ∈ units then k else { k with active := false })
    (fun k => by split <;> rfl)

omit [DecidableEq ι] in
theorem reactivated_nil (db : KeysDb ι) : reactivated [] db = KeysDb.deactivate db := by
  apply Table.ext_rows
  simp [reactivated, KeysDb.deactivate]

omit [DecidableEq ι] in
/-- All active keysets are active again when no unit with one is left. -/
theorem reactivated_eq_self {units : List CurrencyUnit}
    (h : ∀ k ∈ db.rows, k.unit ∉ units → k.active = false) : reactivated units db = db := by
  apply Table.ext_rows
  rw [reactivated, Table.update_rows]
  conv_rhs => rw [← List.map_id db.rows]
  apply List.map_congr_left
  intro k hk
  by_cases hunit : k.unit ∈ units
  · simp [hunit]
  · simp [hunit, ← h k hk hunit]

/-- Storing the active keyset of a unit makes the keysets of the unit as they were. -/
theorem storeActive_reactivated {units : List CurrencyUnit}
    (h : OnlyActive (keysetsOf db.rows k.unit) k) :
    KeysDb.storeActive k (reactivated units db) = reactivated (k.unit :: units) db := by
  obtain ⟨hk, honly⟩ := h
  obtain ⟨hmem, -⟩ := mem_keysetsOf.mp hk
  let k₀ : MintKeySetInfo ι := if k.unit ∈ units then k else { k with active := false }
  have hk₀ : k₀ ∈ (reactivated units db).rows := List.mem_map_of_mem hmem
  have hdata : k₀.SameData k := by
    simp only [k₀]
    split <;> rfl
  rw [storeActive_stored hk₀ hdata]
  apply Table.ext_rows
  simp only [KeysDb.setActiveKeyset, reactivated, Table.update_rows, List.map_map]
  apply List.map_congr_left
  intro k' hk'
  by_cases hunit : k'.unit = k.unit
  · have hactive : k'.active = decide (k'.id = k.id) := by
      have := honly k' (mem_keysetsOf.mpr ⟨hk', hunit⟩)
      rw [Bool.eq_iff_iff, this, decide_eq_true_iff]
    by_cases hin : k'.unit ∈ units <;> simp [← hunit, hin, ← hactive]
  · by_cases hin : k'.unit ∈ units <;> simp [hunit, hin]

omit [DecidableEq ι] in
/-- A loop whose rounds make the keysets of some units active again, in any order. -/
theorem forM_reactivated {f : CurrencyUnit → Tx (KeysDb ι) SignatoryError Unit}
    {p : CurrencyUnit → Prop}
    (hpos : ∀ unit units, p unit →
      f unit (reactivated units db) = .ok ((), reactivated (unit :: units) db))
    (hneg : ∀ unit units, ¬ p unit →
      f unit (reactivated units db) = .ok ((), reactivated units db))
    (xs units : List CurrencyUnit) :
    ∃ units', (∀ unit, unit ∈ units' ↔ unit ∈ units ∨ unit ∈ xs ∧ p unit) ∧
      xs.forM f (reactivated units db) = .ok ((), reactivated units' db) := by
  induction xs generalizing units with
  | nil => exact ⟨units, by simp, Tx.forM_nil_ok.mpr rfl⟩
  | cons x xs ih =>
      by_cases hx : p x
      · obtain ⟨units', hmem, hloop⟩ := ih (x :: units)
        refine ⟨units', fun unit => ?_, Tx.forM_cons_ok.mpr ⟨_, hpos x units hx, hloop⟩⟩
        rw [hmem unit]
        by_cases hu : unit = x
        · simp [hu, hx]
        · simp [hu]
      · obtain ⟨units', hmem, hloop⟩ := ih units
        refine ⟨units', fun unit => ?_, Tx.forM_cons_ok.mpr ⟨_, hneg x units hx, hloop⟩⟩
        rw [hmem unit]
        by_cases hu : unit = x
        · simp [hu, hx]
        · simp [hu]

omit [DecidableEq ι] in
/-- A start keeps the highest keyset of a settled unit. -/
theorem UnitSettled.reusable {entry : UnitConfig} {highest : MintKeySetInfo ι}
    (hindex : highest.derivationPathIndex.isSome) (hconf : AsConfigured entry highest)
    (hmem : highest ∈ keysetsOf db.rows entry.unit) : Reusable db.rows entry highest := by
  refine ⟨?_, hconf.1, denominations_length hconf.2⟩
  exact List.ne_nil_of_mem (List.mem_filter.mpr ⟨hmem, hindex⟩)

theorem initKeyset_settled (h : Settled keysetId config db) (units : List CurrencyUnit) :
    (config.supportedUnits.find? unit).isSome →
      initKeyset keysetId config db.rows unit (reactivated units db) =
        .ok ((), reactivated (unit :: units) db) := by
  intro hunit
  obtain ⟨entry, hentry⟩ := Option.isSome_iff_exists.mp hunit
  obtain ⟨hmem, rfl⟩ := Table.find?_eq_some.mp hentry
  obtain ⟨highest, hhigh, hindex, hconf, honly⟩ := h.units entry hmem
  have hreuse : Reusable db.rows entry highest := UnitSettled.reusable hindex hconf honly.1
  have hhigh' : highestIndexKeyset db.rows entry.unit = some highest := hhigh
  have hactive : { highest with active := true } = highest := by
    rw [← (honly.2 highest honly.1).mpr rfl]
  have hu := (mem_of_highestIndexKeyset hhigh').2
  rw [← hu] at honly ⊢
  simp only [initKeyset, hu, hentry]
  rw [Tx.bind_ok]
  refine ⟨highest, reactivated units db, Tx.lift_ok.mpr ⟨by rw [hhigh']; rfl, rfl⟩, ?_⟩
  rw [if_pos hreuse, Tx.write_ok, hactive, storeActive_reactivated honly, hu]

theorem coverUnit_settled (h : Settled keysetId config db) (units : List CurrencyUnit) :
    unit = .auth ∧ config.supportedUnits.find? .auth = none →
      coverUnit keysetId config (activeUnits config db.rows) unit (reactivated units db) =
        .ok ((), reactivated (unit :: units) db) := by
  rintro ⟨rfl, hauth⟩
  obtain ⟨path, hpath, honly⟩ := h.auth hauth
  have hentry : config.withAuth.find? .auth = some ⟨.auth, 0, 1⟩ :=
    Table.find?_eq_some.mpr ⟨mem_withAuth.mpr (.inr ⟨hauth, rfl⟩), rfl⟩
  have hnew : CurrencyUnit.auth ∉ activeUnits config db.rows := by
    simp [activeUnits, hauth]
  simp only [coverUnit, hentry, if_neg hnew, Tx.bind_ok]
  refine ⟨path, _, Tx.lift_ok.mpr ⟨hpath, rfl⟩, [1], _, Tx.lift_ok.mpr ⟨rfl, rfl⟩, ?_⟩
  rw [Tx.write_ok]
  exact storeActive_reactivated honly

theorem coverUnit_configured (h : Settled keysetId config db) (units : List CurrencyUnit) :
    ¬ (unit = .auth ∧ config.supportedUnits.find? .auth = none) →
      coverUnit keysetId config (activeUnits config db.rows) unit (reactivated units db) =
        .ok ((), reactivated units db) := by
  intro hne
  cases hentry : config.withAuth.find? unit with
  | none =>
      simp only [coverUnit, hentry]
      rfl
  | some entry =>
      obtain ⟨hmem, rfl⟩ := Table.find?_eq_some.mp hentry
      rcases mem_withAuth.mp hmem with hmem | ⟨hauth, rfl⟩
      · obtain ⟨highest, hhigh, -⟩ := h.units entry hmem
        have hold : entry.unit ∈ activeUnits config db.rows :=
          mem_activeUnits.mpr ⟨mem_unitsOf.mpr ⟨highest, mem_of_highestIndexKeyset hhigh⟩,
            entry, hmem, rfl⟩
        simp only [coverUnit, hentry, if_pos hold]
        rfl
      · exact absurd ⟨rfl, hauth⟩ hne

/-- A start leaves a table alone that is settled for its configuration. -/
theorem newSignatory_settled (h : Settled keysetId config db)
    (initOrder coverOrder : List CurrencyUnit) :
    newSignatory keysetId config initOrder coverOrder db = (.ok (), db) := by
  obtain ⟨units, hunits, hinit⟩ := forM_reactivated (fun _ units hp => initKeyset_settled h units hp)
    (fun _ _ hp => by simp [initKeyset, Option.not_isSome_iff_eq_none.mp hp])
    (inOrder initOrder (unitsOf db.rows)) []
  obtain ⟨units', hunits', hcover⟩ := forM_reactivated
    (fun _ units hp => coverUnit_settled h units hp)
    (fun _ units hp => coverUnit_configured h units hp)
    (inOrder coverOrder (config.withAuth.rows.map UnitConfig.unit)) units
  rw [reactivated_nil] at hinit
  have hself : reactivated units' db = db := by
    apply reactivated_eq_self
    intro k hk hout
    rw [hunits', hunits] at hout
    apply h.others k hk
    rw [Table.find?_eq_none]
    intro entry hentry hunit
    apply hout
    rcases mem_withAuth.mp hentry with hmem | ⟨hauth, rfl⟩
    · refine .inl (.inr ⟨mem_inOrder.mpr (mem_unitsOf.mpr ⟨k, hk, rfl⟩), ?_⟩)
      rw [← hunit, Table.find?_eq_some.mpr ⟨hmem, rfl⟩]
      rfl
    · exact .inr ⟨mem_inOrder.mpr (List.mem_map.mpr ⟨_, hentry, hunit⟩), hunit.symm, hauth⟩
  rw [hself] at hcover
  have hfirst := initKeysets_ok.mpr ⟨rfl, hinit⟩
  simp only [newSignatory, Tx.commit, hfirst]
  rw [show coverUnits keysetId config (activeUnits config db.rows) coverOrder
    (reactivated units db) = _ from hcover]

end Fixpoint

/-! ## The condition -/

section Condition

variable {ι : Type} [DecidableEq ι] (keysetId : DerivationPath → List Nat → ι)

/-- The identifier of a keyset that is to be created. -/
def KeysetSpec.id? (customPaths : CurrencyUnit → Option DerivationPath) (spec : KeysetSpec) :
    Option ι :=
  match keysetPath customPaths spec.unit spec.index with
  | .ok path => some (keysetId path spec.amounts)
  | _ => none

/-- A new keyset overwrites none of another unit. -/
def Apart (customPaths : CurrencyUnit → Option DerivationPath) (db : KeysDb ι)
    (spec : KeysetSpec) : Prop :=
  ∀ k ∈ db.rows, spec.id? keysetId customPaths = some k.id → k.unit = spec.unit

/-- The keysets that a start creates overwrite none of another unit, stored or created. -/
def UnitsApart (config : SignatoryConfig) (db : KeysDb ι) : Prop :=
  ∀ spec ∈ startSpecs config db.rows, Apart keysetId config.customPaths db spec ∧
    ∀ spec' ∈ startSpecs config db.rows, ∀ id ∈ spec.id? keysetId config.customPaths,
      spec'.id? keysetId config.customPaths = some id → spec'.unit = spec.unit

/-- The highest keysets of configured units have the configured denominations. -/
def AmountsFit (config : SignatoryConfig) (db : KeysDb ι) : Prop :=
  ∀ entry ∈ config.supportedUnits.rows, ∀ highest ∈ highestIndexKeyset db.rows entry.unit,
    denominations entry.maxOrder = .ok highest.amounts

/-- A start finds the configured denominations, only configured units are rotated, and no new
keyset overwrites one of another unit. -/
def RestartSafe (config : SignatoryConfig) (s : SignatoryState ι) (a : SignatoryAction) : Prop :=
  match a with
  | .start _ _ _ => AmountsFit config s.db ∧ UnitsApart keysetId config s.db
  | .rotate unit amounts inputFeePpk =>
      (config.supportedUnits.find? unit).isSome ∧
        match s.running, rotationIndex unit s.db with
        | some customPaths, .ok index =>
            Apart keysetId customPaths s.db ⟨unit, index, amounts, inputFeePpk⟩
        | _, _ => True

instance (customPaths : CurrencyUnit → Option DerivationPath) (db : KeysDb ι) (spec : KeysetSpec) :
    Decidable (Apart keysetId customPaths db spec) :=
  inferInstanceAs (Decidable (∀ k ∈ db.rows, _ → _))

instance (config : SignatoryConfig) (db : KeysDb ι) : Decidable (UnitsApart keysetId config db) :=
  inferInstanceAs (Decidable (∀ spec ∈ startSpecs config db.rows, _ ∧ ∀ spec' ∈ _, ∀ id ∈ _, _ → _))

instance (config : SignatoryConfig) (db : KeysDb ι) : Decidable (AmountsFit config db) :=
  inferInstanceAs (Decidable (∀ entry ∈ config.supportedUnits.rows, ∀ highest ∈ _, _))

instance (config : SignatoryConfig) (s : SignatoryState ι) (a : SignatoryAction) :
    Decidable (RestartSafe keysetId config s a) :=
  match a with
  | .start _ _ _ => inferInstanceAs (Decidable (_ ∧ UnitsApart keysetId config s.db))
  | .rotate unit amounts inputFeePpk =>
      match h : s.running, h' : rotationIndex unit s.db with
      | some customPaths, .ok index => decidable_of_iff
          ((config.supportedUnits.find? unit).isSome ∧
            Apart keysetId customPaths s.db ⟨unit, index, amounts, inputFeePpk⟩)
          (by simp [RestartSafe, h, h'])
      | none, _ => decidable_of_iff (config.supportedUnits.find? unit).isSome
          (by simp [RestartSafe, h])
      | some _, .err _ => decidable_of_iff (config.supportedUnits.find? unit).isSome
          (by simp [RestartSafe, h, h'])
      | some _, .panic => decidable_of_iff (config.supportedUnits.find? unit).isSome
          (by simp [RestartSafe, h, h'])

/-- A rotation with the fee and the denominations of a configuration. -/
def ConfiguredRotation (config : SignatoryConfig) (a : SignatoryAction) : Prop :=
  ∃ entry ∈ config.withAuth.rows, ∃ amounts, denominations entry.maxOrder = .ok amounts ∧
    a = .rotate entry.unit amounts entry.inputFeePpk

end Condition

/-! ## Starting -/

section Starts

variable {ι : Type} [DecidableEq ι] {keysetId : DerivationPath → List Nat → ι}
  {db db' mid : KeysDb ι} {config : SignatoryConfig} {info k k' : MintKeySetInfo ι}
  {unit : CurrencyUnit}

/-- A keyset with the identifier and the unit of one that was stored or that is created. -/
def Known (keysetId : DerivationPath → List Nat → ι) (config : SignatoryConfig) (db : KeysDb ι)
    (k : MintKeySetInfo ι) : Prop :=
  (∃ k₀ ∈ db.rows, k₀.id = k.id ∧ k₀.unit = k.unit) ∨
    ∃ spec ∈ startSpecs config db.rows,
      spec.id? keysetId config.customPaths = some k.id ∧ spec.unit = k.unit

omit [DecidableEq ι] in
theorem Known.unit_eq (hapart : UnitsApart keysetId config db) (h : Known keysetId config db k)
    (h' : Known keysetId config db k') (hid : k.id = k'.id) : k.unit = k'.unit := by
  rcases h with ⟨k₀, hk₀, hid₀, hunit₀⟩ | ⟨spec, hspec, hid₀, hunit₀⟩ <;>
    rcases h' with ⟨k₁, hk₁, hid₁, hunit₁⟩ | ⟨spec', hspec', hid₁, hunit₁⟩
  · have hsame : k₀ = k₁ := Table.eq_of_key hk₀ hk₁ (by rw [hid₀, hid, hid₁])
    rw [← hunit₀, ← hunit₁, hsame]
  · rw [← hunit₀, ← hunit₁]
    exact (hapart spec' hspec').1 k₀ hk₀ (by rw [hid₁, hid₀, hid])
  · rw [← hunit₀, ← hunit₁]
    exact ((hapart spec hspec).1 k₁ hk₁ (by rw [hid₀, hid₁, hid])).symm
  · rw [← hunit₀, ← hunit₁]
    exact (hapart spec' hspec').2 spec hspec k'.id hid₁ (by rw [hid₀, hid])

omit [DecidableEq ι] in
theorem StartInfo.known (h : StartInfo keysetId config db.rows info) :
    Known keysetId config db info := by
  cases h with
  | keep entry highest hentry hhigh h =>
      exact .inl ⟨highest, (mem_of_highestIndexKeyset hhigh).1, rfl, rfl⟩
  | create spec path hspec hpath =>
      exact .inr ⟨spec, hspec, by simp [KeysetSpec.id?, hpath, createNewKeyset], rfl⟩

/-- What a start stores keeps the keysets of the other units. -/
theorem StartInfo.storeActive (hapart : UnitsApart keysetId config db)
    (hinfo : StartInfo keysetId config db.rows info)
    (hmid : ∀ k ∈ mid.rows, Known keysetId config db k) :
    (∀ k ∈ (KeysDb.storeActive info mid).rows, Known keysetId config db k) ∧
      ∀ unit, unit ≠ info.unit →
        keysetsOf (KeysDb.storeActive info mid).rows unit = keysetsOf mid.rows unit := by
  constructor
  · intro k hk
    obtain ⟨k₀, hk₀, rfl⟩ := mem_storeActive.mp hk
    have hknown : Known keysetId config db k₀ := by
      rcases hk₀ with rfl | ⟨hk₀, -⟩
      · exact hinfo.known
      · exact hmid k₀ hk₀
    rw [sameData_activeFor info k₀]
    exact hknown
  · intro unit hne
    apply keysetsOf_storeActive_other hne.symm
    intro k hk hid hunit
    exact hne (hunit.symm.trans ((hmid k hk).unit_eq hapart hinfo.known hid))

section Loops

variable {initOrder coverOrder : List CurrencyUnit} (hapart : UnitsApart keysetId config db)

include hapart

end Loops

omit [DecidableEq ι] in
/-- The index of a new keyset is not below the rank of the one it is counted on from. -/
theorem indexRank_le_of_next {highest : MintKeySetInfo ι} {index default : Nat}
    (hindex : highest.derivationPathIndex.isSome)
    (hnext : nextIndex (highest.derivationPathIndex.getD default) = .ok index) :
    indexRank highest ≤ index := by
  obtain ⟨i, hi⟩ := Option.isSome_iff_exists.mp hindex
  rw [hi, Option.getD_some, nextIndex] at hnext
  split at hnext
  · cases hnext
    simp [indexRank, hi]
  · cases hnext

section Settles

variable {initOrder coverOrder : List CurrencyUnit} (hapart : UnitsApart keysetId config db)
  (hinit : (inOrder initOrder (unitsOf db.rows)).forM (initKeyset keysetId config db.rows)
    (KeysDb.deactivate db) = .ok ((), mid))
  (hcover : coverUnits keysetId config (activeUnits config db.rows) coverOrder mid = .ok ((), db'))

include hapart hinit hcover

end Settles

/-- A rotation with the configured fee and denominations keeps a table settled. -/
theorem rotateKeyset_settled {entry : UnitConfig} {amounts : List Nat}
    (h : Settled keysetId config db) (hentry : entry ∈ config.supportedUnits.rows)
    (hamounts : denominations entry.maxOrder = .ok amounts)
    (hapart : ∀ index, rotationIndex entry.unit db = .ok index →
      Apart keysetId config.customPaths db ⟨entry.unit, index, amounts, entry.inputFeePpk⟩)
    (hrotate : rotateKeyset keysetId config.customPaths entry.unit amounts entry.inputFeePpk db =
      .ok (info, db')) : Settled keysetId config db' := by
  obtain ⟨index, path, hindex, hpath, rfl, rfl⟩ := rotateKeyset_ok.mp hrotate
  obtain ⟨highest, hhigh, hsome, -, honly⟩ := h.units entry hentry
  have hother : ∀ unit, unit ≠ entry.unit →
      keysetsOf (KeysDb.storeActive (createNewKeyset keysetId path
        ⟨entry.unit, index, amounts, entry.inputFeePpk⟩) db).rows unit = keysetsOf db.rows unit := by
    intro unit hne
    apply keysetsOf_storeActive_other hne.symm
    intro k hk hid hunit
    apply hne
    rw [← hunit]
    apply hapart index hindex k hk
    simp [KeysetSpec.id?, hpath, hid, createNewKeyset]
  constructor
  · intro entry' hentry'
    by_cases hunit : entry'.unit = entry.unit
    · obtain rfl : entry' = entry := Table.eq_of_key hentry' hentry hunit
      apply unitSettled_of_created rfl rfl hamounts
      intro k hk
      simp only [rotationIndex, honly.activeKeyset] at hindex
      calc
        indexRank k ≤ indexRank highest := List.le_of_mem_argmax hk hhigh
        _ ≤ index := indexRank_le_of_next hsome hindex
    · rw [hother entry'.unit hunit]
      exact h.units entry' hentry'
  · intro hauth
    rw [hother .auth fun hunit => Table.find?_eq_none.mp hauth entry hentry hunit.symm]
    exact h.auth hauth
  · intro k hk hnone
    have hne : k.unit ≠ entry.unit := fun hunit =>
      Table.find?_eq_none.mp hnone entry (mem_withAuth.mpr (.inl hentry)) hunit.symm
    have hold : k ∈ keysetsOf db.rows k.unit := by
      rw [← hother k.unit hne]
      exact mem_keysetsOf.mpr ⟨hk, rfl⟩
    exact h.others k (mem_keysetsOf.mp hold).1 hnone

/-- The signatory runs on a table that is settled for its configuration. -/
def RunsSettled (keysetId : DerivationPath → List Nat → ι) (config : SignatoryConfig)
    (s : SignatoryState ι) : Prop :=
  s.running = some config.customPaths ∧ Settled keysetId config s.db

theorem RunsSettled.rotate {s : SignatoryState ι} (h : RunsSettled keysetId config s)
    {a : SignatoryAction} (ha : ConfiguredRotation config a)
    (hsafe : RestartSafe keysetId config s a) : RunsSettled keysetId config (s.step keysetId a) := by
  obtain ⟨hrun, hdb⟩ := h
  obtain ⟨entry, hentry, amounts, hamounts, rfl⟩ := ha
  obtain ⟨hconf, hapart⟩ := hsafe
  have hentry' : entry ∈ config.supportedUnits.rows := by
    rcases mem_withAuth.mp hentry with hmem | ⟨hauth, rfl⟩
    · exact hmem
    · rw [hauth] at hconf
      cases hconf
  simp only [SignatoryState.step, SignatoryState.rotate, hrun]
  refine ⟨rfl, ?_⟩
  apply Tx.commit_preserves hdb
  intro info db' hrotate
  refine rotateKeyset_settled hdb hentry' hamounts ?_ hrotate
  intro index hindex
  simpa only [hrun, hindex] using hapart

theorem RunsSettled.run {s : SignatoryState ι} (h : RunsSettled keysetId config s)
    {rotations : List SignatoryAction} (hrot : ∀ a ∈ rotations, ConfiguredRotation config a)
    (hsafe : Along (SignatoryState.step keysetId) (RestartSafe keysetId config) s rotations) :
    RunsSettled keysetId config (Lib.run (SignatoryState.step keysetId) s rotations) := by
  induction rotations generalizing s with
  | nil => exact h
  | cons a rest ih =>
      exact ih (h.rotate (hrot a List.mem_cons_self) hsafe.1)
        (fun b hb => hrot b (List.mem_cons_of_mem a hb)) hsafe.2

theorem RunsSettled.start {s : SignatoryState ι} (h : RunsSettled keysetId config s)
    (initOrder coverOrder : List CurrencyUnit) :
    s.step keysetId (.start config initOrder coverOrder) = s := by
  obtain ⟨hrun, hdb⟩ := h
  simp only [SignatoryState.step, SignatoryState.start, newSignatory_settled hdb]
  rw [← hrun]

omit [DecidableEq ι] in
theorem Settled.active (h : Settled keysetId config db) {entry : UnitConfig}
    (hentry : entry ∈ config.withAuth.rows) :
    ∃ k, db.activeKeyset entry.unit = some k ∧ AsConfigured entry k := by
  rcases mem_withAuth.mp hentry with hmem | ⟨hauth, rfl⟩
  · obtain ⟨highest, -, -, hconf, honly⟩ := h.units entry hmem
    exact ⟨highest, honly.activeKeyset, hconf⟩
  · obtain ⟨path, -, honly⟩ := h.auth hauth
    exact ⟨_, honly.activeKeyset, rfl, rfl⟩

end Starts

end Cdk
