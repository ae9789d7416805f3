import Cdk.Lib.Outcome
import Cdk.Lib.Runs
import Cdk.Lib.Table
import Cdk.Nuts.Types
import Mathlib.Data.List.MinMax

/-!
# The signatory and its keysets

The signatory keeps the data of every keyset it has ever had in one table and
derives the keys again from a seed. A start chooses the active keysets by the
configuration, and a rotation replaces the active keyset of one unit. The keys
of a keyset are derived from its path and the positions of its amounts, and the
identifier is a hash of the public keys by ascending amounts. Additions to an
index are checked.

The units come out of hash maps in any order; the order is a parameter.
-/

namespace Cdk

open Lib

/-! ## Derivation paths -/

inductive ChildNumber where
  | normal (index : Nat)
  | hardened (index : Nat)
deriving DecidableEq, Repr

abbrev DerivationPath := List ChildNumber

/-- `CurrencyUnit::derivation_index`. -/
def CurrencyUnit.derivationIndex : CurrencyUnit → Option Nat
  | .sat => some 0
  | .msat => some 1
  | .usd => some 2
  | .eur => some 3
  | .auth => some 4
  | .custom _ => none

inductive SignatoryError where
  | unsupportedUnit
deriving DecidableEq, Repr

/-- `derivation_path_from_unit`; an index that cannot be hardened fails an assertion. -/
def derivationPathFromUnit (unit : CurrencyUnit) (index : Nat) :
    Outcome SignatoryError DerivationPath :=
  match unit.derivationIndex with
  | none => .err .unsupportedUnit
  | some unitIndex =>
      if index < 2 ^ 31 then .ok [.hardened 0, .hardened unitIndex, .hardened index] else .panic

/-- The path of a configuration, or the one of the unit and the index. -/
def keysetPath (customPaths : CurrencyUnit → Option DerivationPath) (unit : CurrencyUnit)
    (index : Nat) : Outcome SignatoryError DerivationPath :=
  match customPaths unit with
  | some path => .ok path
  | none => derivationPathFromUnit unit index

/-! ## The table of keysets -/

structure MintKeySetInfo (ι : Type) where
  id : ι
  unit : CurrencyUnit
  active : Bool
  derivationPath : DerivationPath
  derivationPathIndex : Option Nat
  amounts : List Nat
  inputFeePpk : Nat
deriving DecidableEq, Repr

abbrev KeysDb (ι : Type) := Table fun k : MintKeySetInfo ι => k.id

section Keysets

variable {ι : Type} [DecidableEq ι]

namespace KeysDb

/-- `add_keyset_info`, which overwrites the keyset with the same identifier. -/
def addKeysetInfo (info : MintKeySetInfo ι) (db : KeysDb ι) : KeysDb ι := db.upsert info

/-- `set_active_keyset`. -/
def setActiveKeyset (unit : CurrencyUnit) (id : ι) (db : KeysDb ι) : KeysDb ι :=
  db.update (fun k => if k.unit = unit then { k with active := k.id = id } else k)
    (fun k => by split <;> rfl)

/-- `get_active_keyset_id` and `get_keyset_info`. -/
def activeKeyset (unit : CurrencyUnit) (db : KeysDb ι) : Option (MintKeySetInfo ι) :=
  db.rows.find? fun k => k.active ∧ k.unit = unit

/-- Every stored keyset is written back as inactive. -/
def deactivate (db : KeysDb ι) : KeysDb ι :=
  db.update (fun k => { k with active := false }) (fun _ => rfl)

/-- A keyset is stored and made the active one of its unit. -/
def storeActive (info : MintKeySetInfo ι) (db : KeysDb ι) : KeysDb ι :=
  setActiveKeyset info.unit info.id (addKeysetInfo info db)

end KeysDb

/-! ## Configurations -/

/-- The fee and the number of denominations of a unit. -/
structure UnitConfig where
  unit : CurrencyUnit
  inputFeePpk : Nat
  maxOrder : Nat
deriving DecidableEq, Repr

structure SignatoryConfig where
  supportedUnits : Table UnitConfig.unit
  customPaths : CurrencyUnit → Option DerivationPath

/-- The tokens for authentication have a keyset even when none is configured. -/
def SignatoryConfig.withAuth (config : SignatoryConfig) : Table UnitConfig.unit :=
  (config.supportedUnits.insert? ⟨.auth, 0, 1⟩).getD config.supportedUnits

/-- The powers of two below an order, each of which must fit 64 bits. -/
def denominations (maxOrder : Nat) : Outcome SignatoryError (List Nat) :=
  if maxOrder ≤ 64 then .ok ((List.range maxOrder).map (2 ^ ·)) else .panic

/-- The units of a hash map in the order of its iteration. -/
def inOrder (order units : List CurrencyUnit) : List CurrencyUnit :=
  order.dedup.filter (· ∈ units) ++ units.filter (· ∉ order)

/-! ## Creating keysets -/

/-- `BTreeMap::insert` of an amount with the position of its key. -/
def insertPosition (amount position : Nat) : List (Nat × Nat) → List (Nat × Nat)
  | [] => [(amount, position)]
  | key :: rest =>
      if amount < key.1 then (amount, position) :: key :: rest
      else if amount = key.1 then (amount, position) :: rest
      else key :: insertPosition amount position rest

/-- The map that `MintKeySet::generate` fills, by ascending amounts. -/
def keysMap (amounts : List Nat) : List (Nat × Nat) :=
  amounts.zipIdx.foldl (fun map entry => insertPosition entry.1 entry.2 map) []

/-- The paths of the keys by ascending amounts: the hardened child of the path at each position. -/
def keyPaths (path : DerivationPath) (amounts : List Nat) : List DerivationPath :=
  (keysMap amounts).map fun key => path ++ [.hardened key.2]

/-- What a new keyset is made of, apart from its path. -/
structure KeysetSpec where
  unit : CurrencyUnit
  index : Nat
  amounts : List Nat
  inputFeePpk : Nat
deriving DecidableEq, Repr

/-- The index after another one. -/
def nextIndex (index : Nat) : Outcome SignatoryError Nat :=
  if index + 1 < 2 ^ 32 then .ok (index + 1) else .panic

variable (keysetId : DerivationPath → List Nat → ι)

/-- `create_new_keyset`; the identifier is `generatedId` for the keys of one seed. -/
def createNewKeyset (path : DerivationPath) (spec : KeysetSpec) : MintKeySetInfo ι where
  id := keysetId path spec.amounts
  unit := spec.unit
  active := true
  derivationPath := path
  derivationPathIndex := some spec.index
  amounts := spec.amounts
  inputFeePpk := spec.inputFeePpk

/-- Create a keyset under the path of its unit and its index. -/
def createKeyset (customPaths : CurrencyUnit → Option DerivationPath) (spec : KeysetSpec) :
    Tx (KeysDb ι) SignatoryError (MintKeySetInfo ι) := do
  let path ← Tx.lift (keysetPath customPaths spec.unit spec.index)
  Tx.write (KeysDb.storeActive (createNewKeyset keysetId path spec))
  pure (createNewKeyset keysetId path spec)

/-! ## Starting -/

/-- The order of the indices, with an absent one first. -/
def indexRank (k : MintKeySetInfo ι) : Nat := k.derivationPathIndex.elim 0 (· + 1)

/-- The keysets of a unit among those that a start has read. -/
def keysetsOf (infos : List (MintKeySetInfo ι)) (unit : CurrencyUnit) : List (MintKeySetInfo ι) :=
  infos.filter fun k => k.unit = unit

/-- The first keyset of a unit in descending order of the indices. -/
def highestIndexKeyset (infos : List (MintKeySetInfo ι)) (unit : CurrencyUnit) :
    Option (MintKeySetInfo ι) :=
  (keysetsOf infos unit).argmax indexRank

/-- The keysets of a unit that have an index. -/
def indexedKeysets (infos : List (MintKeySetInfo ι)) (unit : CurrencyUnit) :
    List (MintKeySetInfo ι) :=
  (keysetsOf infos unit).filter fun k => k.derivationPathIndex.isSome

/-- Whether a start keeps the keyset with the highest index: its fee and the number of its amounts
are those of the configuration. -/
def Reusable (infos : List (MintKeySetInfo ι)) (entry : UnitConfig)
    (highest : MintKeySetInfo ι) : Prop :=
  indexedKeysets infos entry.unit ≠ [] ∧ highest.inputFeePpk = entry.inputFeePpk ∧
    highest.amounts.length = entry.maxOrder

instance (infos : List (MintKeySetInfo ι)) (entry : UnitConfig) (highest : MintKeySetInfo ι) :
    Decidable (Reusable infos entry highest) :=
  inferInstanceAs (Decidable (_ ∧ _ ∧ _))

/-- The keyset that a start creates for a unit whose highest one it does not keep. -/
def initSpec (infos : List (MintKeySetInfo ι)) (entry : UnitConfig)
    (highest : MintKeySetInfo ι) : Outcome SignatoryError KeysetSpec := do
  let index ← if indexedKeysets infos entry.unit = [] then .ok 1
    else nextIndex (highest.derivationPathIndex.getD 0)
  .ok ⟨entry.unit, index, highest.amounts, entry.inputFeePpk⟩

/-- The round of a start for one unit of the stored keysets. -/
def initKeyset (config : SignatoryConfig) (infos : List (MintKeySetInfo ι))
    (unit : CurrencyUnit) : Tx (KeysDb ι) SignatoryError Unit :=
  match config.supportedUnits.find? unit with
  | none => pure ()
  | some entry => do
      let highest ← Tx.lift (Outcome.expect (highestIndexKeyset infos unit))
      if Reusable infos entry highest then
        Tx.write (KeysDb.storeActive { highest with active := true })
      else do
        let spec ← Tx.lift (initSpec infos entry highest)
        let _ ← createKeyset keysetId config.customPaths spec

/-- The units of stored keysets. -/
def unitsOf (infos : List (MintKeySetInfo ι)) : List CurrencyUnit :=
  (infos.map MintKeySetInfo.unit).dedup

/-- `init_keysets`, which returns the units with an active keyset. -/
def initKeysets (config : SignatoryConfig) (order : List CurrencyUnit) :
    Tx (KeysDb ι) SignatoryError (List CurrencyUnit) := do
  let infos ← Tx.read fun db => db.rows
  Tx.write KeysDb.deactivate
  (inOrder order (unitsOf infos)).forM (initKeyset keysetId config infos)
  pure ((unitsOf infos).filter fun unit => (config.supportedUnits.find? unit).isSome)

/-- The first keyset of a unit that has none. -/
def coverUnit (config : SignatoryConfig) (activeUnits : List CurrencyUnit) (unit : CurrencyUnit) :
    Tx (KeysDb ι) SignatoryError Unit :=
  match config.withAuth.find? unit with
  | none => pure ()
  | some entry =>
      if unit ∈ activeUnits then pure ()
      else do
        let path ← Tx.lift (keysetPath config.customPaths unit 0)
        let amounts ← Tx.lift (denominations entry.maxOrder)
        let spec : KeysetSpec := ⟨unit, 0, amounts, entry.inputFeePpk⟩
        Tx.write (KeysDb.storeActive (createNewKeyset keysetId path spec))

/-- The second transaction of a start. -/
def coverUnits (config : SignatoryConfig) (activeUnits order : List CurrencyUnit) :
    Tx (KeysDb ι) SignatoryError Unit :=
  (inOrder order (config.withAuth.rows.map UnitConfig.unit)).forM
    (coverUnit keysetId config activeUnits)

/-- `DbSignatory::new`, two transactions. -/
def newSignatory (config : SignatoryConfig) (initOrder coverOrder : List CurrencyUnit)
    (db : KeysDb ι) : Outcome SignatoryError Unit × KeysDb ι :=
  match Tx.commit (initKeysets keysetId config initOrder) db with
  | (.ok activeUnits, db') => Tx.commit (coverUnits keysetId config activeUnits coverOrder) db'
  | (.err e, db') => (.err e, db')
  | (.panic, db') => (.panic, db')

/-! ## Rotating -/

/-- The index of the next keyset of a unit. -/
def rotationIndex (unit : CurrencyUnit) (db : KeysDb ι) : Outcome SignatoryError Nat :=
  match db.activeKeyset unit with
  | some k => nextIndex (k.derivationPathIndex.getD 1)
  | none => .ok 1

/-- `rotate_keyset`. -/
def rotateKeyset (customPaths : CurrencyUnit → Option DerivationPath) (unit : CurrencyUnit)
    (amounts : List Nat) (inputFeePpk : Nat) :
    Tx (KeysDb ι) SignatoryError (MintKeySetInfo ι) := do
  let rotation ← Tx.read (rotationIndex unit)
  let index ← Tx.lift rotation
  createKeyset keysetId customPaths ⟨unit, index, amounts, inputFeePpk⟩

/-! ## Runs -/

/-- The table and the custom paths of the signatory that runs, if the last start has succeeded. -/
structure SignatoryState (ι : Type) where
  db : KeysDb ι
  running : Option (CurrencyUnit → Option DerivationPath)

inductive SignatoryAction where
  | start (config : SignatoryConfig) (initOrder coverOrder : List CurrencyUnit)
  | rotate (unit : CurrencyUnit) (amounts : List Nat) (inputFeePpk : Nat)

namespace SignatoryState

variable (s : SignatoryState ι)

def start (config : SignatoryConfig) (initOrder coverOrder : List CurrencyUnit) :
    SignatoryState ι :=
  match newSignatory keysetId config initOrder coverOrder s.db with
  | (.ok _, db') => ⟨db', some config.customPaths⟩
  | (_, db') => ⟨db', none⟩

def rotate (unit : CurrencyUnit) (amounts : List Nat) (inputFeePpk : Nat) : SignatoryState ι :=
  match s.running with
  | none => s
  | some customPaths =>
      { s with db := (Tx.commit (rotateKeyset keysetId customPaths unit amounts inputFeePpk) s.db).2 }

def step : SignatoryAction → SignatoryState ι
  | .start config initOrder coverOrder => s.start keysetId config initOrder coverOrder
  | .rotate unit amounts inputFeePpk => s.rotate keysetId unit amounts inputFeePpk

/-- The state that an empty table reaches by restarts and rotations. -/
def reached (actions : List SignatoryAction) : SignatoryState ι :=
  run (step keysetId) ⟨Table.empty, none⟩ actions

end SignatoryState

end Keysets

end Cdk
