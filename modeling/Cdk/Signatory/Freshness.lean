import Cdk.Signatory.DbSignatory

/-!
# Fresh and unchanging keysets

A keyset is overwritten when another one is created with its keys: under its
path, with as many amounts in the same order. The path comes from the
configuration or from an index that is counted on from the active or from the
highest keyset, and neither is always ahead of all stored keysets. In a run in
which no keys are generated again, every rotation creates a new keyset and the
data of stored keysets never change.
-/

namespace Cdk

open Lib

section Data

variable {ι : Type} {keysetId : DerivationPath → List Nat → ι} {db db' db'' : KeysDb ι}
  {k k' k'' : MintKeySetInfo ι}

/-- The second keyset differs from the first one at most in being active. -/
def MintKeySetInfo.SameData (k k' : MintKeySetInfo ι) : Prop := k' = { k with active := k'.active }

/-- The data of all stored keysets are still there. -/
def KeysetsKept (db db' : KeysDb ι) : Prop :=
  ∀ k ∈ db.rows, ∃ k' ∈ db'.rows, k.SameData k'

/-- The identifier tells the generated keys apart. -/
def FromKeys (keysetId : DerivationPath → List Nat → ι) : Prop :=
  ∀ path amounts path' amounts', keysetId path amounts = keysetId path' amounts' ↔
    keyPaths path amounts = keyPaths path' amounts'

/-- The identifiers are those of the paths and the amounts. -/
def Derived (keysetId : DerivationPath → List Nat → ι) (db : KeysDb ι) : Prop :=
  ∀ k ∈ db.rows, k.id = keysetId k.derivationPath k.amounts

theorem MintKeySetInfo.SameData.refl (k : MintKeySetInfo ι) : k.SameData k := rfl

theorem MintKeySetInfo.SameData.trans (h : k.SameData k') (h' : k'.SameData k'') :
    k.SameData k'' := by
  unfold MintKeySetInfo.SameData at h h' ⊢
  rw [h', h]

theorem MintKeySetInfo.SameData.id_eq (h : k.SameData k') : k'.id = k.id := by
  rw [h]

theorem KeysetsKept.refl (db : KeysDb ι) : KeysetsKept db db := fun k hk => ⟨k, hk, .refl k⟩

theorem KeysetsKept.trans (h : KeysetsKept db db') (h' : KeysetsKept db' db'') :
    KeysetsKept db db'' := by
  intro k hk
  obtain ⟨k₁, hk₁, hs₁⟩ := h k hk
  obtain ⟨k₂, hk₂, hs₂⟩ := h' k₁ hk₁
  exact ⟨k₂, hk₂, hs₁.trans hs₂⟩

theorem mem_deactivate :
    k ∈ (KeysDb.deactivate db).rows ↔ ∃ k₀ ∈ db.rows, k = { k₀ with active := false } := by
  simp only [KeysDb.deactivate, Table.update_rows, List.mem_map]
  exact exists_congr fun _ => and_congr_right fun _ => eq_comm

theorem keysetsKept_deactivate (db : KeysDb ι) : KeysetsKept db (KeysDb.deactivate db) :=
  fun k hk => ⟨_, mem_deactivate.mpr ⟨k, hk, rfl⟩, rfl⟩

theorem Derived.of_sameData (h : k.SameData k')
    (hk : k.id = keysetId k.derivationPath k.amounts) :
    k'.id = keysetId k'.derivationPath k'.amounts := by
  rw [h]
  exact hk

theorem Derived.deactivate (h : Derived keysetId db) : Derived keysetId (KeysDb.deactivate db) := by
  intro k hk
  obtain ⟨k₀, hk₀, rfl⟩ := mem_deactivate.mp hk
  exact h k₀ hk₀

end Data

section Active

variable {ι : Type} [DecidableEq ι] {keysetId : DerivationPath → List Nat → ι}
  {db db' : KeysDb ι} {info k : MintKeySetInfo ι}

/-- The flag that making a keyset active gives to another one. -/
def activeFor (info k : MintKeySetInfo ι) : MintKeySetInfo ι :=
  if k.unit = info.unit then { k with active := k.id = info.id } else k

theorem sameData_activeFor (info k : MintKeySetInfo ι) : k.SameData (activeFor info k) := by
  unfold activeFor
  split <;> rfl

theorem mem_storeActive :
    k ∈ (KeysDb.storeActive info db).rows ↔
      ∃ k₀, (k₀ = info ∨ k₀ ∈ db.rows ∧ k₀.id ≠ info.id) ∧ k = activeFor info k₀ := by
  simp only [KeysDb.storeActive, KeysDb.setActiveKeyset, KeysDb.addKeysetInfo, Table.update_rows,
    List.mem_map, Table.mem_upsert]
  exact exists_congr fun _ => and_congr_right fun _ => eq_comm

/-- Storing a keyset keeps the data of those that it does not overwrite with other data. -/
theorem KeysetsKept.storeActive (h : KeysetsKept db db')
    (hsame : ∀ k ∈ db.rows, k.id = info.id → k.SameData info) :
    KeysetsKept db (KeysDb.storeActive info db') := by
  intro k hk
  by_cases hid : k.id = info.id
  · refine ⟨activeFor info info, mem_storeActive.mpr ⟨info, .inl rfl, rfl⟩, ?_⟩
    exact (hsame k hk hid).trans (sameData_activeFor info info)
  · obtain ⟨k', hk', hs⟩ := h k hk
    refine ⟨activeFor info k', mem_storeActive.mpr ⟨k', .inr ⟨hk', ?_⟩, rfl⟩, ?_⟩
    · rw [hs.id_eq]
      exact hid
    · exact hs.trans (sameData_activeFor info k')

theorem Derived.storeActive (h : Derived keysetId db)
    (hinfo : info.id = keysetId info.derivationPath info.amounts) :
    Derived keysetId (KeysDb.storeActive info db) := by
  intro k hk
  obtain ⟨k₀, hk₀, rfl⟩ := mem_storeActive.mp hk
  apply Derived.of_sameData (sameData_activeFor info k₀)
  rcases hk₀ with rfl | ⟨hk₀, -⟩
  · exact hinfo
  · exact h k₀ hk₀

/-- A keyset that is stored and made active is the only active one of its unit. -/
theorem storeActive_only (hk : k ∈ (KeysDb.storeActive info db).rows)
    (hunit : k.unit = info.unit) : k.active = true ↔ k.id = info.id := by
  obtain ⟨k₀, -, rfl⟩ := mem_storeActive.mp hk
  unfold activeFor at hunit ⊢
  split at hunit
  next h => simp [h]
  next h => exact absurd hunit h

end Active

/-! ## The condition -/

section Condition

variable {ι : Type} [DecidableEq ι]

/-- No stored keyset has the keys of a new one. -/
def Unused (customPaths : CurrencyUnit → Option DerivationPath) (db : KeysDb ι)
    (spec : KeysetSpec) : Prop :=
  match keysetPath customPaths spec.unit spec.index with
  | .ok path => ∀ k ∈ db.rows, keyPaths k.derivationPath k.amounts ≠ keyPaths path spec.amounts
  | _ => True

/-- The unit, path, index, amounts and fee of a stored keyset are those of a new one. -/
def MintKeySetInfo.MadeFrom (k : MintKeySetInfo ι) (path : DerivationPath)
    (spec : KeysetSpec) : Prop :=
  k.unit = spec.unit ∧ k.derivationPath = path ∧ k.derivationPathIndex = some spec.index ∧
    k.amounts = spec.amounts ∧ k.inputFeePpk = spec.inputFeePpk

/-- A stored keyset with the keys of a new one also has its other data. -/
def Repeated (customPaths : CurrencyUnit → Option DerivationPath) (db : KeysDb ι)
    (spec : KeysetSpec) : Prop :=
  match keysetPath customPaths spec.unit spec.index with
  | .ok path => ∀ k ∈ db.rows,
      keyPaths k.derivationPath k.amounts = keyPaths path spec.amounts → k.MadeFrom path spec
  | _ => True

/-- The units that a start has given an active keyset before it covers the others. -/
def activeUnits (config : SignatoryConfig) (infos : List (MintKeySetInfo ι)) : List CurrencyUnit :=
  (unitsOf infos).filter fun unit => (config.supportedUnits.find? unit).isSome

/-- The keysets that a start would create. -/
def startSpecs (config : SignatoryConfig) (infos : List (MintKeySetInfo ι)) : List KeysetSpec :=
  (config.supportedUnits.rows.filterMap fun entry =>
    match highestIndexKeyset infos entry.unit with
    | none => none
    | some highest =>
        if Reusable infos entry highest then none
        else match initSpec infos entry highest with
          | .ok spec => some spec
          | _ => none) ++
  config.withAuth.rows.filterMap fun entry =>
    if entry.unit ∈ activeUnits config infos then none
    else match denominations entry.maxOrder with
      | .ok amounts => some ⟨entry.unit, 0, amounts, entry.inputFeePpk⟩
      | _ => none

/-- A rotation creates its keyset with unused keys, and a start creates its keysets with unused
keys or as they are stored. -/
def KeysUnused (s : SignatoryState ι) (a : SignatoryAction) : Prop :=
  match a with
  | .start config _ _ => ∀ spec ∈ startSpecs config s.db.rows, Repeated config.customPaths s.db spec
  | .rotate unit amounts inputFeePpk =>
      match s.running, rotationIndex unit s.db with
      | some customPaths, .ok index => Unused customPaths s.db ⟨unit, index, amounts, inputFeePpk⟩
      | _, _ => True

instance (customPaths : CurrencyUnit → Option DerivationPath) (db : KeysDb ι)
    (spec : KeysetSpec) : Decidable (Unused customPaths db spec) :=
  match h : keysetPath customPaths spec.unit spec.index with
  | .ok path => decidable_of_iff
      (∀ k ∈ db.rows, keyPaths k.derivationPath k.amounts ≠ keyPaths path spec.amounts)
      (by simp [Unused, h])
  | .err _ => .isTrue (by simp [Unused, h])
  | .panic => .isTrue (by simp [Unused, h])

instance (k : MintKeySetInfo ι) (path : DerivationPath) (spec : KeysetSpec) :
    Decidable (k.MadeFrom path spec) :=
  inferInstanceAs (Decidable (_ ∧ _ ∧ _ ∧ _ ∧ _))

instance (customPaths : CurrencyUnit → Option DerivationPath) (db : KeysDb ι)
    (spec : KeysetSpec) : Decidable (Repeated customPaths db spec) :=
  match h : keysetPath customPaths spec.unit spec.index with
  | .ok path => decidable_of_iff
      (∀ k ∈ db.rows, keyPaths k.derivationPath k.amounts = keyPaths path spec.amounts →
        k.MadeFrom path spec) (by simp [Repeated, h])
  | .err _ => .isTrue (by simp [Repeated, h])
  | .panic => .isTrue (by simp [Repeated, h])

instance (s : SignatoryState ι) (a : SignatoryAction) : Decidable (KeysUnused s a) :=
  match a with
  | .start config _ _ => inferInstanceAs (Decidable (∀ spec ∈ startSpecs config s.db.rows, _))
  | .rotate unit amounts inputFeePpk =>
      match h : s.running, h' : rotationIndex unit s.db with
      | some customPaths, .ok index => decidable_of_iff
          (Unused customPaths s.db ⟨unit, index, amounts, inputFeePpk⟩) (by simp [KeysUnused, h, h'])
      | none, _ => .isTrue (by simp [KeysUnused, h])
      | some _, .err _ => .isTrue (by simp [KeysUnused, h, h'])
      | some _, .panic => .isTrue (by simp [KeysUnused, h, h'])

instance (db db' : KeysDb ι) : Decidable (KeysetsKept db db') :=
  inferInstanceAs (Decidable (∀ k ∈ db.rows, ∃ k' ∈ db'.rows, k' = { k with active := k'.active }))

end Condition

/-! ## Steps -/

section Steps

variable {ι : Type} [DecidableEq ι] {keysetId : DerivationPath → List Nat → ι}
  {db db' : KeysDb ι} {s : SignatoryState ι} {customPaths : CurrencyUnit → Option DerivationPath}
  {spec : KeysetSpec} {info : MintKeySetInfo ι}

theorem createKeyset_ok :
    createKeyset keysetId customPaths spec db = .ok (info, db') ↔
      ∃ path, keysetPath customPaths spec.unit spec.index = .ok path ∧
        info = createNewKeyset keysetId path spec ∧ db' = KeysDb.storeActive info db := by
  simp only [createKeyset, Tx.bind_ok, Tx.lift_ok, Tx.write_ok, Tx.pure_ok]
  constructor
  · rintro ⟨path, _, ⟨hpath, rfl⟩, _, _, rfl, rfl, rfl⟩
    exact ⟨path, hpath, rfl, rfl⟩
  · rintro ⟨path, hpath, rfl, rfl⟩
    exact ⟨path, db, ⟨hpath, rfl⟩, (), _, rfl, rfl, rfl⟩

omit [DecidableEq ι] in
/-- What a keyset that is created over stored ones leaves of them. -/
theorem Repeated.sameData (hkeys : FromKeys keysetId) (hdb : Derived keysetId db)
    (h : Repeated customPaths db spec) {path : DerivationPath}
    (hpath : keysetPath customPaths spec.unit spec.index = .ok path) :
    ∀ k ∈ db.rows, k.id = (createNewKeyset keysetId path spec).id →
      k.SameData (createNewKeyset keysetId path spec) := by
  intro k hk hid
  simp only [Repeated, hpath] at h
  obtain ⟨hunit, hp, hindex, ha, hfee⟩ := h k hk ((hkeys _ _ _ _).mp (hdb k hk ▸ hid))
  simp [MintKeySetInfo.SameData, createNewKeyset, hdb k hk, hp, ha, hunit, hindex, hfee]

omit [DecidableEq ι] in
theorem Unused.fresh (hkeys : FromKeys keysetId) (hdb : Derived keysetId db)
    (h : Unused customPaths db spec) {path : DerivationPath}
    (hpath : keysetPath customPaths spec.unit spec.index = .ok path) :
    ∀ k ∈ db.rows, k.id ≠ (createNewKeyset keysetId path spec).id := by
  intro k hk hid
  simp only [Unused, hpath] at h
  exact h k hk ((hkeys _ _ _ _).mp (hdb k hk ▸ hid))

/-! ### Starts -/

/-- The keysets that a start stores: the highest ones that it keeps and those that it creates. -/
inductive StartInfo (keysetId : DerivationPath → List Nat → ι) (config : SignatoryConfig)
    (infos : List (MintKeySetInfo ι)) : MintKeySetInfo ι → Prop where
  | keep (entry : UnitConfig) (highest : MintKeySetInfo ι)
      (hentry : entry ∈ config.supportedUnits.rows)
      (hhigh : highestIndexKeyset infos entry.unit = some highest)
      (h : Reusable infos entry highest) :
      StartInfo keysetId config infos { highest with active := true }
  | create (spec : KeysetSpec) (path : DerivationPath) (hspec : spec ∈ startSpecs config infos)
      (hpath : keysetPath config.customPaths spec.unit spec.index = .ok path) :
      StartInfo keysetId config infos (createNewKeyset keysetId path spec)

omit [DecidableEq ι] in
theorem mem_of_highestIndexKeyset {infos : List (MintKeySetInfo ι)} {unit : CurrencyUnit}
    {highest : MintKeySetInfo ι} (h : highestIndexKeyset infos unit = some highest) :
    highest ∈ infos ∧ highest.unit = unit := by
  have hmem := List.mem_filter.mp (List.argmax_mem h)
  exact ⟨hmem.1, by simpa using hmem.2⟩

omit [DecidableEq ι] in
theorem initSpec_ok {infos : List (MintKeySetInfo ι)} {entry : UnitConfig}
    {highest : MintKeySetInfo ι} (h : initSpec infos entry highest = .ok spec) :
    ∃ index, (indexedKeysets infos entry.unit = [] ∧ index = 1 ∨
        indexedKeysets infos entry.unit ≠ [] ∧
          nextIndex (highest.derivationPathIndex.getD 0) = .ok index) ∧
      spec = ⟨entry.unit, index, highest.amounts, entry.inputFeePpk⟩ := by
  unfold initSpec at h
  split at h
  next hnone =>
    cases h
    exact ⟨1, .inl ⟨hnone, rfl⟩, rfl⟩
  next hsome =>
    obtain ⟨index, hindex, h⟩ := Outcome.bind_eq_ok.mp h
    cases h
    exact ⟨index, .inr ⟨hsome, hindex⟩, rfl⟩

theorem initKeyset_ok {config : SignatoryConfig} {infos : List (MintKeySetInfo ι)}
    {entry : UnitConfig} {unit : CurrencyUnit} (hentry : config.supportedUnits.find? unit = some entry)
    (h : initKeyset keysetId config infos unit db = .ok ((), db')) :
    ∃ highest, highestIndexKeyset infos unit = some highest ∧
      ((Reusable infos entry highest ∧ db' = KeysDb.storeActive { highest with active := true } db) ∨
        (¬ Reusable infos entry highest ∧ ∃ spec path, initSpec infos entry highest = .ok spec ∧
          keysetPath config.customPaths spec.unit spec.index = .ok path ∧
          db' = KeysDb.storeActive (createNewKeyset keysetId path spec) db)) := by
  unfold initKeyset at h
  simp only [hentry, Tx.bind_ok, Tx.lift_ok, Outcome.expect_eq_ok, Tx.ite_ok] at h
  obtain ⟨highest, _, ⟨hhigh, rfl⟩, ⟨hreuse, h⟩ | ⟨hnew, h⟩⟩ := h
  · rw [Tx.write_ok] at h
    exact ⟨highest, hhigh, .inl ⟨hreuse, h.symm⟩⟩
  · simp only [createKeyset_ok, Tx.pure_ok] at h
    obtain ⟨spec, _, ⟨hspec, rfl⟩, _, _, ⟨path, hpath, rfl, rfl⟩, -, rfl⟩ := h
    exact ⟨highest, hhigh, .inr ⟨hnew, spec, path, hspec, hpath, rfl⟩⟩

theorem initKeyset_none {config : SignatoryConfig} {infos : List (MintKeySetInfo ι)}
    {unit : CurrencyUnit} (hentry : config.supportedUnits.find? unit = none)
    (h : initKeyset keysetId config infos unit db = .ok ((), db')) : db' = db := by
  simp only [initKeyset, hentry, Tx.pure_ok] at h
  exact h.2.symm

theorem initKeyset_info {config : SignatoryConfig} {infos : List (MintKeySetInfo ι)}
    {unit : CurrencyUnit} (h : initKeyset keysetId config infos unit db = .ok ((), db')) :
    db' = db ∨ ∃ info, StartInfo keysetId config infos info ∧ info.unit = unit ∧
      db' = KeysDb.storeActive info db := by
  cases hentry : config.supportedUnits.find? unit with
  | none => exact .inl (initKeyset_none hentry h)
  | some entry =>
      obtain ⟨highest, hhigh, ⟨hreuse, rfl⟩ | ⟨hnew, spec, path, hspec, hpath, rfl⟩⟩ :=
        initKeyset_ok hentry h
      all_goals obtain ⟨hmem, rfl⟩ := Table.find?_eq_some.mp hentry
      · exact .inr ⟨_, .keep entry highest hmem hhigh hreuse, (mem_of_highestIndexKeyset hhigh).2,
          rfl⟩
      · have hlisted : spec ∈ startSpecs config infos := by
          apply List.mem_append_left
          exact List.mem_filterMap.mpr ⟨entry, hmem, by simp [hhigh, hnew, hspec]⟩
        obtain ⟨index, -, rfl⟩ := initSpec_ok hspec
        exact .inr ⟨_, .create _ path hlisted hpath, rfl, rfl⟩

theorem coverUnit_ok {config : SignatoryConfig} {infos : List (MintKeySetInfo ι)}
    {unit : CurrencyUnit}
    (h : coverUnit keysetId config (activeUnits config infos) unit db = .ok ((), db')) :
    ((unit ∈ activeUnits config infos ∨ config.withAuth.find? unit = none) ∧ db' = db) ∨
      ∃ entry path amounts, entry ∈ config.withAuth.rows ∧ entry.unit = unit ∧
        unit ∉ activeUnits config infos ∧ keysetPath config.customPaths unit 0 = .ok path ∧
        denominations entry.maxOrder = .ok amounts ∧
        ⟨unit, 0, amounts, entry.inputFeePpk⟩ ∈ startSpecs config infos ∧
        db' = KeysDb.storeActive
          (createNewKeyset keysetId path ⟨unit, 0, amounts, entry.inputFeePpk⟩) db := by
  unfold coverUnit at h
  cases hentry : config.withAuth.find? unit with
  | none =>
      simp only [hentry, Tx.pure_ok] at h
      exact .inl ⟨.inr rfl, h.2.symm⟩
  | some entry =>
      obtain ⟨hmem, rfl⟩ := Table.find?_eq_some.mp hentry
      simp only [hentry, Tx.ite_ok, Tx.pure_ok] at h
      rcases h with ⟨hold, -, rfl⟩ | ⟨hnew, h⟩
      · exact .inl ⟨.inl hold, rfl⟩
      · simp only [Tx.bind_ok, Tx.lift_ok, Tx.write_ok] at h
        obtain ⟨path, _, ⟨hpath, rfl⟩, amounts, _, ⟨hamounts, rfl⟩, h⟩ := h
        refine .inr ⟨entry, path, amounts, hmem, rfl, hnew, hpath, hamounts, ?_, h.symm⟩
        apply List.mem_append_right
        exact List.mem_filterMap.mpr ⟨entry, hmem, by rw [if_neg hnew, hamounts]⟩

theorem initKeysets_ok {config : SignatoryConfig} {order units : List CurrencyUnit} :
    initKeysets keysetId config order db = .ok (units, db') ↔
      activeUnits config db.rows = units ∧
        (inOrder order (unitsOf db.rows)).forM (initKeyset keysetId config db.rows)
          (KeysDb.deactivate db) = .ok ((), db') := by
  simp only [initKeysets, Tx.bind_ok, Tx.read_ok, Tx.write_ok, Tx.pure_ok]
  constructor
  · rintro ⟨_, _, ⟨rfl, rfl⟩, _, _, rfl, _, _, hloop, hunits, rfl⟩
    exact ⟨hunits, hloop⟩
  · rintro ⟨hunits, hloop⟩
    exact ⟨_, _, ⟨rfl, rfl⟩, (), _, rfl, (), _, hloop, hunits, rfl⟩

/-- A start is a list of stored keysets after all are made inactive. -/
theorem newSignatory_preserves {P : KeysDb ι → Prop} {config : SignatoryConfig}
    (initOrder coverOrder : List CurrencyUnit) (hdb : P db) (hoff : P (KeysDb.deactivate db))
    (hstore : ∀ info mid, StartInfo keysetId config db.rows info → P mid →
      P (KeysDb.storeActive info mid)) :
    P (newSignatory keysetId config initOrder coverOrder db).2 := by
  unfold newSignatory
  rcases Tx.commit_cases (initKeysets keysetId config initOrder) db with
    ⟨_, db₁, hinit, hc⟩ | ⟨-, hsame, hne⟩
  · rw [hc]
    obtain ⟨rfl, hloop⟩ := initKeysets_ok.mp hinit
    have hmid : P db₁ := by
      refine Tx.forM_preserves ?_ hoff hloop
      intro unit mid mid' hmid hround
      rcases initKeyset_info hround with rfl | ⟨info, hinfo, -, rfl⟩
      · exact hmid
      · exact hstore info mid hinfo hmid
    apply Tx.commit_preserves hmid
    intro _ db₂ hcover
    refine Tx.forM_preserves ?_ hmid hcover
    intro unit mid mid' hmid hround
    rcases coverUnit_ok hround with ⟨-, rfl⟩ | ⟨entry, path, amounts, -, -, -, hpath, -, hspec, rfl⟩
    · exact hmid
    · exact hstore _ mid (.create _ path hspec hpath) hmid
  · cases hr : Tx.commit (initKeysets keysetId config initOrder) db with
    | mk result db₁ =>
        rw [hr] at hsame hne
        cases result with
        | ok units => exact absurd rfl (hne units)
        | err e => exact hsame ▸ hdb
        | panic => exact hsame ▸ hdb

omit [DecidableEq ι] in
theorem StartInfo.derived {config : SignatoryConfig} (hdb : Derived keysetId db)
    (h : StartInfo keysetId config db.rows info) :
    info.id = keysetId info.derivationPath info.amounts := by
  cases h with
  | keep entry highest hentry hhigh h => exact hdb highest (mem_of_highestIndexKeyset hhigh).1
  | create spec path hspec hpath => rfl

omit [DecidableEq ι] in
/-- A start that creates its keysets with unused keys overwrites no data. -/
theorem StartInfo.sameData {config : SignatoryConfig} (hkeys : FromKeys keysetId)
    (hdb : Derived keysetId db) (h : StartInfo keysetId config db.rows info)
    (hspecs : ∀ spec ∈ startSpecs config db.rows, Repeated config.customPaths db spec) :
    ∀ k ∈ db.rows, k.id = info.id → k.SameData info := by
  cases h with
  | keep entry highest hentry hhigh h =>
      intro k hk hid
      rw [Table.eq_of_key hk (mem_of_highestIndexKeyset hhigh).1 hid]
      rfl
  | create spec path hspec hpath => exact (hspecs spec hspec).sameData hkeys hdb hpath

/-! ### Rotations -/

theorem rotateKeyset_ok {unit : CurrencyUnit} {amounts : List Nat} {inputFeePpk : Nat} :
    rotateKeyset keysetId customPaths unit amounts inputFeePpk db = .ok (info, db') ↔
      ∃ index path, rotationIndex unit db = .ok index ∧
        keysetPath customPaths unit index = .ok path ∧
        info = createNewKeyset keysetId path ⟨unit, index, amounts, inputFeePpk⟩ ∧
        db' = KeysDb.storeActive info db := by
  simp only [rotateKeyset, Tx.bind_ok, Tx.read_ok, Tx.lift_ok, createKeyset_ok]
  constructor
  · rintro ⟨_, _, ⟨rfl, rfl⟩, index, _, ⟨hindex, rfl⟩, path, hpath, rfl, rfl⟩
    exact ⟨index, path, hindex, hpath, rfl, rfl⟩
  · rintro ⟨index, path, hindex, hpath, rfl, rfl⟩
    exact ⟨_, _, ⟨rfl, rfl⟩, index, _, ⟨hindex, rfl⟩, path, hpath, rfl, rfl⟩

/-- A rotation yields a keyset that was not stored and makes it the only active one of its unit. -/
def RotatesFresh (keysetId : DerivationPath → List Nat → ι) (s : SignatoryState ι)
    (unit : CurrencyUnit) (amounts : List Nat) (inputFeePpk : Nat) : Prop :=
  ∀ customPaths info db', s.running = some customPaths →
    rotateKeyset keysetId customPaths unit amounts inputFeePpk s.db = .ok (info, db') →
    (∀ k ∈ s.db.rows, k.id ≠ info.id) ∧
      ∀ k ∈ db'.rows, k.unit = unit → (k.active = true ↔ k.id = info.id)

/-- A rotation is fresh exactly when its keys are unused. -/
theorem rotatesFresh_iff (hkeys : FromKeys keysetId) (hdb : Derived keysetId s.db)
    (unit : CurrencyUnit) (amounts : List Nat) (inputFeePpk : Nat) :
    RotatesFresh keysetId s unit amounts inputFeePpk ↔
      KeysUnused s (.rotate unit amounts inputFeePpk) := by
  constructor
  · intro h
    simp only [KeysUnused]
    split
    next customPaths index hrun hindex =>
      unfold Unused
      split
      next path hpath =>
        intro k hk hsame
        have hrotate : rotateKeyset keysetId customPaths unit amounts inputFeePpk s.db =
            .ok (createNewKeyset keysetId path ⟨unit, index, amounts, inputFeePpk⟩, _) :=
          rotateKeyset_ok.mpr ⟨index, path, hindex, hpath, rfl, rfl⟩
        apply (h customPaths _ _ hrun hrotate).1 k hk
        rw [hdb k hk]
        exact (hkeys _ _ _ _).mpr hsame
      next => trivial
    next => trivial
  · intro h customPaths info db' hrun hrotate
    obtain ⟨index, path, hindex, hpath, rfl, rfl⟩ := rotateKeyset_ok.mp hrotate
    simp only [KeysUnused, hrun, hindex] at h
    exact ⟨h.fresh hkeys hdb hpath, fun k hk hunit => storeActive_only hk hunit⟩

/-! ### Runs -/

theorem step_keeps (hkeys : FromKeys keysetId) (hdb : Derived keysetId s.db)
    {a : SignatoryAction} (h : KeysUnused s a) : KeysetsKept s.db (s.step keysetId a).db := by
  cases a with
  | start config initOrder coverOrder =>
      have hnew : KeysetsKept s.db (newSignatory keysetId config initOrder coverOrder s.db).2 :=
        newSignatory_preserves initOrder coverOrder (.refl s.db) (keysetsKept_deactivate s.db)
          fun info mid hinfo hmid => hmid.storeActive (hinfo.sameData hkeys hdb h)
      simp only [SignatoryState.step, SignatoryState.start]
      split
      next h => rwa [h] at hnew
      next h => rwa [h] at hnew
  | rotate unit amounts inputFeePpk =>
      simp only [SignatoryState.step, SignatoryState.rotate]
      split
      next => exact .refl _
      next customPaths hrun =>
        apply Tx.commit_preserves (KeysetsKept.refl s.db)
        intro info db' hrotate
        obtain ⟨hfresh, -⟩ := (rotatesFresh_iff hkeys hdb unit amounts inputFeePpk).mpr h
          customPaths info db' hrun hrotate
        obtain ⟨index, path, hindex, hpath, rfl, rfl⟩ := rotateKeyset_ok.mp hrotate
        exact (KeysetsKept.refl _).storeActive fun k hk hid => absurd hid (hfresh k hk)

end Steps

end Cdk
