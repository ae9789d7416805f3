import Cdk.Lib.Outcome
import Cdk.Lib.Runs
import Cdk.Nuts.KeysetId

/-!
# Keysets in the redb store of a wallet

The secrets of a keyset are derived under an index of 31 bits that is computed
from its identifier. The store keeps, besides the keysets and their keys, which
identifier has which index, and refuses a keyset whose index another one has.
Each call is one write transaction over all tables.
-/

namespace Cdk

open Lib

/-- The tables that the calls on keysets read or write. Values that are stored as JSON are kept as
they are. -/
structure RedbKeysets where
  /-- `MINT_KEYSETS_TABLE`: pairs of a mint's address and the bytes of an identifier. -/
  mintKeysets : List (String × List UInt8)
  /-- `KEYSETS_TABLE`, by the bytes of the identifier. -/
  keysets : List UInt8 → Option KeySetInfo
  /-- `MINT_KEYS_TABLE`, by the text of the identifier. -/
  mintKeys : String → Option Keys
  /-- `KEYSET_U32_MAPPING`, which holds texts of identifiers. -/
  u32Mapping : Nat → Option String

inductive RedbKeysetsError where
  | nut02
  | duplicate
deriving DecidableEq, Repr

/-- A part of a write transaction. -/
abbrev KeysetsTx := Tx RedbKeysets RedbKeysetsError

namespace RedbKeysets

/-- The store as it is created. -/
def empty : RedbKeysets := ⟨[], fun _ => none, fun _ => none, fun _ => none⟩

/-- Insert into `KEYSET_U32_MAPPING`, and tell whether the entry that was there is of another
keyset. The new entry is in the table in either case. -/
def insertU32 (id : Id) : KeysetsTx Bool := do
  let existing ← Tx.read fun s => s.u32Mapping id.toU32
  Tx.write fun s =>
    { s with u32Mapping := Function.update s.u32Mapping id.toU32 (some id.toText) }
  match existing with
  | none => pure false
  | some text => do
      let existingId ← Tx.lift (Outcome.ofOption .nut02 (Id.fromStr text))
      pure (existingId != id)

/-- The rest of a round of the loop: a keyset that is known keeps its data. -/
def insertKeyset (mintUrl : String) (existing : Option KeySetInfo) (keyset : KeySetInfo) :
    KeysetsTx Unit := do
  let stored ← match existing with
    | some existing =>
        pure { existing with active := keyset.active, inputFeePpk := keyset.inputFeePpk }
    | none => do
        Tx.write fun s =>
          { s with mintKeysets := s.mintKeysets.insert (mintUrl, keyset.id.toBytes) }
        pure keyset
  Tx.write fun s =>
    { s with keysets := Function.update s.keysets stored.id.toBytes (some stored) }

/-- The loop of `add_mint_keysets`, which ends with the flag of the last round or at a conflict. -/
def addMintKeysetsLoop (mintUrl : String) (existingU32 : Bool) : List KeySetInfo → KeysetsTx Bool
  | [] => pure existingU32
  | keyset :: rest => do
      let existingKeyset ← Tx.read fun s => s.keysets keyset.id.toBytes
      let conflict ← insertU32 keyset.id
      if conflict then pure true
      else do
        insertKeyset mintUrl existingKeyset keyset
        addMintKeysetsLoop mintUrl false rest

/-- `WalletRedbDatabase::add_mint_keysets`. -/
def addMintKeysets (mintUrl : String) (keysets : List KeySetInfo) : KeysetsTx Unit := do
  let existingU32 ← addMintKeysetsLoop mintUrl false keysets
  Tx.ensure (!existingU32) .duplicate

/-- `WalletRedbDatabase::add_keys`. -/
def addKeys (env : Env) (casing : Casing) (keyset : PublicKeySet) : KeysetsTx Unit := do
  Tx.ensure (keyset.verifyId env casing) .nut02
  let existing ← Tx.read fun s => s.mintKeys keyset.id.toText
  Tx.write fun s =>
    { s with mintKeys := Function.update s.mintKeys keyset.id.toText (some keyset.keys) }
  let existingU32 ← insertU32 keyset.id
  Tx.ensure (!(existing.isSome || existingU32)) .duplicate

/-- `WalletRedbDatabase::remove_keys`. -/
def removeKeys (id : Id) : KeysetsTx Unit :=
  Tx.write fun s => { s with mintKeys := Function.update s.mintKeys id.toText none }

inductive Call where
  | addMintKeysets (mintUrl : String) (keysets : List KeySetInfo)
  | addKeys (keyset : PublicKeySet)
  | removeKeys (id : Id)

/-- The transaction of a call. -/
def Call.tx (env : Env) (casing : Casing) : Call → KeysetsTx Unit
  | .addMintKeysets mintUrl keysets => RedbKeysets.addMintKeysets mintUrl keysets
  | .addKeys keyset => RedbKeysets.addKeys env casing keyset
  | .removeKeys id => RedbKeysets.removeKeys id

/-- A call and the store it leaves. -/
def call (env : Env) (casing : Casing) (s : RedbKeysets) (c : Call) :
    Outcome RedbKeysetsError Unit × RedbKeysets :=
  (c.tx env casing).commit s

def step (env : Env) (casing : Casing) (s : RedbKeysets) (c : Call) : RedbKeysets :=
  (s.call env casing c).2

/-! ## The index of a stored keyset -/

/-- A keyset has a row in the table of keysets or in the table of keys. -/
def Stored (s : RedbKeysets) (id : Id) : Prop :=
  (s.keysets id.toBytes).isSome ∨ (s.mintKeys id.toText).isSome

/-- The mapping leads from the index of a keyset back to the keyset. -/
def Mapped (s : RedbKeysets) (id : Id) : Prop := s.u32Mapping id.toU32 = some id.toText

/-- A row of the table of keysets is about the keyset of its key, and the mapping covers every
keyset that is stored. -/
structure Inv (s : RedbKeysets) : Prop where
  key : ∀ bytes info, s.keysets bytes = some info → info.id.toBytes = bytes
  mapped : ∀ id, s.Stored id → s.Mapped id

theorem inv_empty : empty.Inv where
  key := by simp [empty]
  mapped := by simp [empty, Stored]

variable {s s' : RedbKeysets} {id : Id}

/-- Two keysets that the mapping covers have different indices. -/
theorem eq_of_mapped {a b : Id} (ha : s.Mapped a) (hb : s.Mapped b) (h : a.toU32 = b.toU32) :
    a = b := by
  unfold Mapped at ha hb
  rw [h, hb] at ha
  exact (Id.toText_injective (Option.some.inj ha)).symm

theorem insertU32_ok {conflict : Bool} (h : insertU32 id s = .ok (conflict, s')) :
    s' = { s with u32Mapping := Function.update s.u32Mapping id.toU32 (some id.toText) } ∧
      ∀ text, conflict = false → s.u32Mapping id.toU32 = some text → Id.fromStr text = some id := by
  simp only [insertU32, Tx.bind_ok, Tx.read_ok, Tx.write_ok] at h
  obtain ⟨existing, _, ⟨rfl, rfl⟩, _, _, rfl, h⟩ := h
  cases hold : s.u32Mapping id.toU32 with
  | none =>
      simp only [hold, Tx.pure_ok] at h
      refine ⟨h.2.symm, ?_⟩
      intro text _ htext
      cases htext
  | some text =>
      simp only [hold, Tx.bind_ok, Tx.lift_ok, Tx.pure_ok, Outcome.ofOption_eq_ok] at h
      obtain ⟨existingId, _, ⟨hread, rfl⟩, hconflict, rfl⟩ := h
      refine ⟨rfl, ?_⟩
      rintro _ rfl ⟨⟩
      have heq : existingId = id := by simpa using hconflict
      rw [hread, heq]

/-- Without a conflict the mapping covers the keyset and everything that it covered before. -/
theorem mapped_insertU32 (h : insertU32 id s = .ok (false, s')) :
    s'.Mapped id ∧ ∀ b, s.Mapped b → s'.Mapped b := by
  obtain ⟨rfl, hsame⟩ := insertU32_ok h
  refine ⟨Function.update_self .., ?_⟩
  intro b hb
  by_cases hindex : b.toU32 = id.toU32
  · have hread := hsame b.toText rfl (hindex ▸ hb)
    rw [Id.fromStr_toText] at hread
    cases hread
    exact Function.update_self ..
  · exact (Function.update_of_ne hindex ..).trans hb

theorem inv_insertU32 (h : s.Inv) (hrun : insertU32 id s = .ok (false, s')) : s'.Inv := by
  obtain ⟨-, hkept⟩ := mapped_insertU32 hrun
  obtain ⟨rfl, -⟩ := insertU32_ok hrun
  exact ⟨h.key, fun b hb => hkept b (h.mapped b hb)⟩

theorem insertKeyset_ok {mintUrl : String} {existing : Option KeySetInfo} {keyset : KeySetInfo}
    (hid : ∀ info, existing = some info → info.id = keyset.id)
    (h : insertKeyset mintUrl existing keyset s = .ok ((), s')) :
    ∃ stored : KeySetInfo, stored.id = keyset.id ∧
      s'.keysets = Function.update s.keysets keyset.id.toBytes (some stored) ∧
      s'.mintKeys = s.mintKeys ∧ s'.u32Mapping = s.u32Mapping := by
  cases existing with
  | none =>
      simp only [insertKeyset, Tx.bind_ok, Tx.write_ok, Tx.pure_ok] at h
      obtain ⟨_, _, rfl, _, _, ⟨rfl, rfl⟩, rfl⟩ := h
      exact ⟨keyset, rfl, rfl, rfl, rfl⟩
  | some info =>
      have hsame := hid info rfl
      simp only [insertKeyset, Tx.bind_ok, Tx.write_ok, Tx.pure_ok] at h
      obtain ⟨_, _, ⟨rfl, rfl⟩, rfl⟩ := h
      refine ⟨{ info with active := keyset.active, inputFeePpk := keyset.inputFeePpk }, hsame, ?_,
        rfl, rfl⟩
      rw [← hsame]

/-- A row of a keyset that the mapping covers may be written. -/
theorem inv_insertKeyset (h : s.Inv) {mintUrl : String} {keyset : KeySetInfo}
    (hmapped : s.Mapped keyset.id)
    (hrun : insertKeyset mintUrl (s.keysets keyset.id.toBytes) keyset s = .ok ((), s')) :
    s'.Inv := by
  have hid : ∀ info, s.keysets keyset.id.toBytes = some info → info.id = keyset.id :=
    fun info hinfo => Id.toBytes_injective (h.key _ info hinfo)
  obtain ⟨stored, hstored, hkeysets, hkeys, hmap⟩ := insertKeyset_ok hid hrun
  constructor
  · intro bytes info hinfo
    rw [hkeysets] at hinfo
    by_cases hb : bytes = keyset.id.toBytes
    · subst hb
      rw [Function.update_self] at hinfo
      cases hinfo
      rw [hstored]
    · rw [Function.update_of_ne hb] at hinfo
      exact h.key bytes info hinfo
  · intro b hb
    have hb' : b = keyset.id ∨ s.Stored b := by
      by_cases heq : b = keyset.id
      · exact .inl heq
      · have hne : b.toBytes ≠ keyset.id.toBytes := fun h => heq (Id.toBytes_injective h)
        rw [Stored, hkeysets, hkeys, Function.update_of_ne hne] at hb
        exact .inr hb
    have hold : s.Mapped b := by
      rcases hb' with rfl | hb'
      · exact hmapped
      · exact h.mapped b hb'
    rw [Mapped, hmap]
    exact hold

theorem inv_addMintKeysetsLoop (h : s.Inv) {mintUrl : String} {flag conflict : Bool}
    {keysets : List KeySetInfo}
    (hrun : addMintKeysetsLoop mintUrl flag keysets s = .ok (conflict, s'))
    (hconflict : conflict = false) : s'.Inv := by
  induction keysets generalizing s flag with
  | nil =>
      obtain ⟨-, rfl⟩ := Tx.pure_ok.mp hrun
      exact h
  | cons keyset rest ih =>
      simp only [addMintKeysetsLoop, Tx.bind_ok, Tx.read_ok] at hrun
      obtain ⟨_, _, ⟨rfl, rfl⟩, found, s₁, hinsert, hrun⟩ := hrun
      cases found with
      | true =>
          obtain ⟨rfl, -⟩ := Tx.pure_ok.mp hrun
          cases hconflict
      | false =>
          have hinv := inv_insertU32 h hinsert
          have hnew := (mapped_insertU32 hinsert).1
          obtain ⟨rfl, -⟩ := insertU32_ok hinsert
          simp only [Bool.false_eq_true, if_false, Tx.bind_ok] at hrun
          obtain ⟨_, s₂, hstore, hrest⟩ := hrun
          exact ih (inv_insertKeyset hinv hnew hstore) hrest

theorem inv_addKeys {env : Env} {casing : Casing} {keyset : PublicKeySet} (h : s.Inv)
    (hrun : addKeys env casing keyset s = .ok ((), s')) : s'.Inv := by
  simp only [addKeys, Tx.bind_ok, Tx.ensure_ok, Tx.read_ok, Tx.write_ok] at hrun
  obtain ⟨_, _, ⟨-, rfl⟩, existing, _, ⟨rfl, rfl⟩, _, s₁, rfl, conflict, s₂, hinsert, hfree, rfl⟩ :=
    hrun
  have hconflict : conflict = false := by
    rw [Bool.not_eq_true', Bool.or_eq_false_iff] at hfree
    exact hfree.2
  subst hconflict
  obtain ⟨hnew, hkept⟩ := mapped_insertU32 hinsert
  obtain ⟨rfl, -⟩ := insertU32_ok hinsert
  refine ⟨h.key, ?_⟩
  intro b hb
  by_cases heq : b = keyset.id
  · exact heq ▸ hnew
  · have hne : b.toText ≠ keyset.id.toText := fun h => heq (Id.toText_injective h)
    apply hkept b
    apply h.mapped b
    rw [Stored] at hb ⊢
    dsimp only at hb
    rwa [Function.update_of_ne hne] at hb

theorem inv_removeKeys (h : s.Inv) (hrun : removeKeys id s = .ok ((), s')) : s'.Inv := by
  obtain rfl := Tx.write_ok.mp hrun
  refine ⟨h.key, ?_⟩
  intro b hb
  apply h.mapped b
  rw [Stored] at hb ⊢
  dsimp only at hb
  by_cases heq : b.toText = id.toText
  · rw [heq, Function.update_self] at hb
    exact .inl (hb.resolve_right Bool.false_ne_true)
  · rwa [Function.update_of_ne heq] at hb

theorem step_inv (env : Env) (casing : Casing) (s : RedbKeysets) (c : Call) (h : s.Inv) :
    (s.step env casing c).Inv := by
  apply Tx.commit_preserves h
  intro u s' hrun
  cases c with
  | addMintKeysets mintUrl keysets =>
      simp only [Call.tx, addMintKeysets, Tx.bind_ok, Tx.ensure_ok] at hrun
      obtain ⟨conflict, _, hloop, hfree, rfl⟩ := hrun
      exact inv_addMintKeysetsLoop h hloop (by simpa using hfree)
  | addKeys keyset => exact inv_addKeys h hrun
  | removeKeys id => exact inv_removeKeys h hrun

/-- In every run from an empty store, keysets that are stored have different indices, and a call
that does not succeed leaves every table as it was. -/
theorem run_indices_distinct (env : Env) (casing : Casing) (calls : List Call) :
    let s := run (step env casing) empty calls
    (∀ a b, s.Stored a → s.Stored b → a ≠ b → a.toU32 ≠ b.toU32) ∧
      ∀ c, (s.call env casing c).1 ≠ .ok () → (s.call env casing c).2 = s := by
  intro s
  have hinv : s.Inv :=
    @invariant_run RedbKeysets Call (step env casing) Inv (step_inv env casing) _ inv_empty calls
  constructor
  · intro a b ha hb hne hindex
    exact hne (eq_of_mapped (hinv.mapped a ha) (hinv.mapped b hb) hindex)
  · intro c hfail
    rcases Tx.commit_cases (c.tx env casing) s with ⟨u, s', -, hcommit⟩ | ⟨-, hsame, -⟩
    · exact absurd (congrArg Prod.fst hcommit) hfail
    · exact hsame

end RedbKeysets

end Cdk
