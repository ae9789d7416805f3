import Cdk.Nuts.IdCodecs

/-!
# Resolving short keyset identifiers

A token names its keysets by a prefix of their identifiers. The identifier of
the first version is its own prefix; that of the second is the first listed one
that begins with the prefix. The search cuts every listed identifier to the
length of the prefix, whatever its version.
-/

namespace Cdk

open Lib

namespace Id

/-- The search of `Id::from_short_keyset_id`, whose slices panic past the end. -/
def findPrefix (prefixBytes : List UInt8) : List KeySetInfo → Outcome Nut02Error Id
  | [] => .err .unknownShortKeysetId
  | info :: rest =>
      if prefixBytes.length ≤ info.id.idBytes.length then
        if info.id.idBytes.take prefixBytes.length = prefixBytes then .ok info.id
        else findPrefix prefixBytes rest
      else .panic

/-- `Id::from_short_keyset_id`. -/
def fromShortKeysetId (short : ShortKeysetId) (keysetsInfo : List KeySetInfo) :
    Outcome Nut02Error Id :=
  if short.prefixBytes.length < byteLength .version00 ∨
      byteLength .version01 < short.prefixBytes.length then .err .malformedShortKeysetId
  else
    match short.version with
    | .version00 =>
        .ok (.v1 (BitVec.ofNat 56 (ofBytes (short.prefixBytes.take (byteLength .version00)))))
    | .version01 => findPrefix short.prefixBytes keysetsInfo

end Id

/-- `ShortKeysetId::from` of an identifier. -/
def ShortKeysetId.ofId : Id → ShortKeysetId
  | .v1 bytes => ⟨.version00, bytesOf 7 bytes.toNat⟩
  | .v2 bytes => ⟨.version01, (bytesOf 32 bytes.toNat).take 7⟩

namespace ShortIds

/-! ## The search -/

section Search

variable {prefixBytes : List UInt8} {keysets : List KeySetInfo} {id : Id}

/-- A listed identifier ends the search: it begins with the prefix, or is shorter. -/
def Ends (prefixBytes : List UInt8) (info : KeySetInfo) : Prop :=
  info.id.idBytes.length < prefixBytes.length ∨ prefixBytes <+: info.id.idBytes

instance (prefixBytes : List UInt8) : DecidablePred (Ends prefixBytes) := fun info =>
  inferInstanceAs (Decidable (info.id.idBytes.length < prefixBytes.length ∨
    prefixBytes <+: info.id.idBytes))

/-- The search answers by the first identifier that ends it. -/
theorem findPrefix_eq (prefixBytes : List UInt8) (keysets : List KeySetInfo) :
    Id.findPrefix prefixBytes keysets =
      match keysets.find? (Ends prefixBytes ·) with
      | none => .err .unknownShortKeysetId
      | some info =>
          if info.id.idBytes.length < prefixBytes.length then .panic else .ok info.id := by
  induction keysets with
  | nil => rfl
  | cons info rest ih =>
      rw [Id.findPrefix, List.find?_cons]
      by_cases hlength : prefixBytes.length ≤ info.id.idBytes.length
      · have hnot : ¬ info.id.idBytes.length < prefixBytes.length := Nat.not_lt.mpr hlength
        by_cases hprefix : prefixBytes <+: info.id.idBytes
        · have hends : decide (Ends prefixBytes info) = true := decide_eq_true (.inr hprefix)
          rw [hends, if_pos hlength, if_pos (List.prefix_iff_eq_take.mp hprefix).symm]
          exact (if_neg hnot).symm
        · have hends : decide (Ends prefixBytes info) = false :=
            decide_eq_false (not_or.mpr ⟨hnot, hprefix⟩)
          rw [hends, if_pos hlength, ih]
          refine if_neg fun htake => hprefix ?_
          exact List.prefix_iff_eq_take.mpr htake.symm
      · have hends : decide (Ends prefixBytes info) = true :=
          decide_eq_true (.inl (Nat.not_le.mp hlength))
        rw [hends, if_neg hlength]
        exact (if_pos (Nat.not_le.mp hlength)).symm

end Search

/-! ## Safe resolution -/

/-- The call returns, and an identifier that it returns is of the version of the short one and
begins with all of its bytes. -/
structure ResolvesSafely (short : ShortKeysetId) (keysets : List KeySetInfo) : Prop where
  returns : Id.fromShortKeysetId short keysets ≠ .panic
  version : ∀ id, Id.fromShortKeysetId short keysets = .ok id → id.version = short.version
  begins : ∀ id, Id.fromShortKeysetId short keysets = .ok id → short.prefixBytes <+: id.idBytes

/-- The prefix has a length that is refused, or is the identifier itself; or the first listed
identifier that ends the search is of the second version, if any does. -/
def Resolvable (short : ShortKeysetId) (keysets : List KeySetInfo) : Prop :=
  short.prefixBytes.length < 7 ∨ 32 < short.prefixBytes.length ∨
    match short.version with
    | .version00 => short.prefixBytes.length = 7
    | .version01 => ∀ info, keysets.find? (Ends short.prefixBytes ·) = some info →
        info.id.version = .version01

section Safe

variable {version : KeySetVersion} {prefixBytes : List UInt8} {keysets : List KeySetInfo}

theorem fromShortKeysetId_version00 (hlow : ¬ prefixBytes.length < 7)
    (hhigh : ¬ 32 < prefixBytes.length) :
    ∃ id : Id, Id.fromShortKeysetId ⟨.version00, prefixBytes⟩ keysets = .ok id ∧
      id.version = .version00 ∧ id.idBytes = prefixBytes.take 7 := by
  have htake : (prefixBytes.take 7).length = 7 := by
    rw [List.length_take]
    omega
  refine ⟨.v1 (BitVec.ofNat 56 (ofBytes (prefixBytes.take 7))), if_neg ?_, rfl, ?_⟩
  · exact not_or.mpr ⟨hlow, hhigh⟩
  · have hlt := ofBytes_lt (prefixBytes.take 7)
    have hbytes := bytesOf_ofBytes (prefixBytes.take 7)
    rw [htake] at hlt hbytes
    rw [Id.idBytes, BitVec.toNat_ofNat, Nat.mod_eq_of_lt (hlt.trans_eq (by decide)), hbytes]

theorem fromShortKeysetId_version01 (hlow : ¬ prefixBytes.length < 7)
    (hhigh : ¬ 32 < prefixBytes.length) :
    Id.fromShortKeysetId ⟨.version01, prefixBytes⟩ keysets = Id.findPrefix prefixBytes keysets :=
  if_neg (not_or.mpr ⟨hlow, hhigh⟩)

theorem resolvesSafely_version00 (hlow : ¬ prefixBytes.length < 7)
    (hhigh : ¬ 32 < prefixBytes.length) :
    ResolvesSafely ⟨.version00, prefixBytes⟩ keysets ↔ prefixBytes.length = 7 := by
  obtain ⟨id, hok, hversion, hbytes⟩ :=
    @fromShortKeysetId_version00 prefixBytes keysets hlow hhigh
  constructor
  · intro h
    have hbegins := (h.begins id hok).length_le
    rw [Id.length_idBytes, hversion] at hbegins
    exact Nat.le_antisymm hbegins (Nat.not_lt.mp hlow)
  · intro hseven
    refine ⟨by rw [hok]; nofun, fun other hother => ?_, fun other hother => ?_⟩
    · rw [hok] at hother
      cases hother
      exact hversion
    · rw [hok] at hother
      cases hother
      have hsame : prefixBytes = id.idBytes := by rw [hbytes, ← hseven, List.take_length]
      exact hsame ▸ List.prefix_rfl

/-- An identifier of the second version is as long as the longest prefix. -/
theorem resolvesSafely_version01 (hlow : ¬ prefixBytes.length < 7)
    (hhigh : ¬ 32 < prefixBytes.length) :
    ResolvesSafely ⟨.version01, prefixBytes⟩ keysets ↔
      ∀ info, keysets.find? (Ends prefixBytes ·) = some info → info.id.version = .version01 := by
  have hcall := (@fromShortKeysetId_version01 prefixBytes keysets hlow hhigh).trans
    (findPrefix_eq prefixBytes keysets)
  cases hfind : keysets.find? (Ends prefixBytes ·) with
  | none =>
      simp only [hfind] at hcall
      refine iff_of_true ⟨?_, ?_, ?_⟩ nofun
      · rw [hcall]
        nofun
      · rw [hcall]
        nofun
      · rw [hcall]
        nofun
  | some info =>
      simp only [hfind] at hcall
      have hends : Ends prefixBytes info := by
        have := List.find?_some hfind
        simpa using this
      constructor
      · rintro h _ ⟨⟩
        by_cases hshort : info.id.idBytes.length < prefixBytes.length
        · rw [if_pos hshort] at hcall
          exact absurd hcall h.returns
        · rw [if_neg hshort] at hcall
          exact h.version _ hcall
      · intro h
        have hversion := h info rfl
        have hlength : info.id.idBytes.length = 32 := by
          rw [Id.length_idBytes, hversion]
          rfl
        have hlong : ¬ info.id.idBytes.length < prefixBytes.length := by omega
        rw [if_neg hlong] at hcall
        refine ⟨by rw [hcall]; nofun, fun other hother => ?_, fun other hother => ?_⟩
        · rw [hcall] at hother
          cases hother
          exact hversion
        · rw [hcall] at hother
          cases hother
          exact hends.resolve_left hlong

theorem resolvesSafely_iff_resolvable (short : ShortKeysetId) (keysets : List KeySetInfo) :
    ResolvesSafely short keysets ↔ Resolvable short keysets := by
  obtain ⟨version, prefixBytes⟩ := short
  by_cases hlength : prefixBytes.length < 7 ∨ 32 < prefixBytes.length
  · have hcall : Id.fromShortKeysetId ⟨version, prefixBytes⟩ keysets =
        .err .malformedShortKeysetId := if_pos hlength
    refine iff_of_true ⟨?_, ?_, ?_⟩ (hlength.imp_right Or.inl)
    · rw [hcall]
      nofun
    · rw [hcall]
      nofun
    · rw [hcall]
      nofun
  · obtain ⟨hlow, hhigh⟩ := not_or.mp hlength
    rw [Resolvable, or_iff_right hlow, or_iff_right hhigh]
    cases version with
    | version00 => exact resolvesSafely_version00 hlow hhigh
    | version01 => exact resolvesSafely_version01 hlow hhigh

end Safe

/-! ## Resolving back -/

/-- No other listed identifier of its version has its first seven bytes. -/
def Alone (keysets : List KeySetInfo) (id : Id) : Prop :=
  ∀ info ∈ keysets, info.id.version = id.version → info.id.idBytes.take 7 = id.idBytes.take 7 →
    info.id = id

/-- A listed identifier that is alone is what its short identifier is resolved to. -/
def ResolvesBack (keysets : List KeySetInfo) (id : Id) : Prop :=
  id ∈ keysets.map KeySetInfo.id → Alone keysets id →
    Id.fromShortKeysetId (.ofId id) keysets = .ok id

section Back

variable {keysets : List KeySetInfo} {id : Id}

theorem seven_le_length (id : Id) : 7 ≤ id.idBytes.length := by
  cases id with
  | v1 bytes => exact (length_bytesOf 7 _).ge
  | v2 bytes =>
      rw [Id.length_idBytes]
      exact (by decide : 7 ≤ 32)

/-- All identifiers have seven bytes, so one ends the search for seven exactly if it has them. -/
theorem ends_seven (info : KeySetInfo) :
    Ends (id.idBytes.take 7) info ↔ info.id.idBytes.take 7 = id.idBytes.take 7 := by
  have htake : (id.idBytes.take 7).length = 7 := by
    rw [List.length_take]
    exact Nat.min_eq_left (seven_le_length id)
  rw [Ends, htake, or_iff_right (Nat.not_lt.mpr (seven_le_length info.id)),
    List.prefix_iff_eq_take, htake, eq_comm]

theorem resolvesBack_v1 (bytes : BitVec 56) :
    Id.fromShortKeysetId (.ofId (.v1 bytes)) keysets = .ok (.v1 bytes) := by
  have hlength : (bytesOf 7 bytes.toNat).length = 7 := length_bytesOf 7 _
  obtain ⟨id, hok, hversion, hbytes⟩ := @fromShortKeysetId_version00
    (bytesOf 7 bytes.toNat) keysets (by omega) (by omega)
  have htake : (bytesOf 7 bytes.toNat).take 7 = bytesOf 7 bytes.toNat :=
    List.take_of_length_le hlength.le
  rw [ShortKeysetId.ofId, hok]
  congr 1
  apply Id.toBytes_injective
  rw [Id.toBytes_eq, hversion, hbytes, htake]
  rfl

/-- The search for the first seven bytes answers by the first identifier that has them. -/
theorem fromShortKeysetId_ofId (hid : id.version = .version01) :
    Id.fromShortKeysetId (.ofId id) keysets =
      match keysets.find? (fun info => info.id.idBytes.take 7 = id.idBytes.take 7) with
      | none => .err .unknownShortKeysetId
      | some info => .ok info.id := by
  cases id with
  | v1 bytes => cases hid
  | v2 bytes =>
      have hlength : ((bytesOf 32 bytes.toNat).take 7).length = 7 := by
        rw [List.length_take, length_bytesOf]
        rfl
      have hends : ∀ info : KeySetInfo, Ends ((bytesOf 32 bytes.toNat).take 7) info ↔
          info.id.idBytes.take 7 = (Id.v2 bytes).idBytes.take 7 := @ends_seven (.v2 bytes)
      have hlong (info : KeySetInfo) : ¬ info.id.idBytes.length < 7 :=
        Nat.not_lt.mpr (seven_le_length info.id)
      rw [ShortKeysetId.ofId, fromShortKeysetId_version01 (by omega) (by omega), findPrefix_eq]
      simp only [hends, hlength, hlong, if_false]

theorem resolvesBack_iff_first :
    ResolvesBack keysets id ↔
      (id ∈ keysets.map KeySetInfo.id → Alone keysets id → id.version = .version01 →
        ∀ info, keysets.find? (fun info => info.id.idBytes.take 7 = id.idBytes.take 7) = some info →
          info.id.version = .version01) := by
  unfold ResolvesBack
  apply imp_congr_right
  intro hlisted
  apply imp_congr_right
  intro halone
  cases hversion : id.version with
  | version00 =>
      cases id with
      | v1 bytes => exact iff_of_true (resolvesBack_v1 bytes) nofun
      | v2 bytes => cases hversion
  | version01 =>
      rw [fromShortKeysetId_ofId hversion, forall_prop_of_true rfl]
      cases hfind : keysets.find? (fun info => info.id.idBytes.take 7 = id.idBytes.take 7) with
      | none =>
          obtain ⟨info, hinfo, rfl⟩ := List.mem_map.mp hlisted
          have hnone := List.find?_eq_none.mp hfind info hinfo
          simp at hnone
      | some info =>
          have hmem := List.mem_of_find?_eq_some hfind
          have hbytes : info.id.idBytes.take 7 = id.idBytes.take 7 := by
            have := List.find?_some hfind
            simpa using this
          simp only [Outcome.ok.injEq, Option.some.injEq, forall_eq']
          constructor
          · intro heq
            rw [heq, hversion]
          · intro hsecond
            exact halone info hmem (hsecond.trans hversion.symm) hbytes

end Back

end ShortIds

/-- For all short identifiers and lists: when the short one is resolved safely, and when an
identifier is resolved back. -/
theorem shortIds_resolve_iff (keysets : List KeySetInfo) :
    (∀ short, ShortIds.ResolvesSafely short keysets ↔ ShortIds.Resolvable short keysets) ∧
      ∀ id, ShortIds.ResolvesBack keysets id ↔
        (id ∈ keysets.map KeySetInfo.id → ShortIds.Alone keysets id → id.version = .version01 →
          ∀ info, keysets.find? (fun info => info.id.idBytes.take 7 = id.idBytes.take 7) =
            some info → info.id.version = .version01) :=
  ⟨fun short => ShortIds.resolvesSafely_iff_resolvable short keysets,
    fun _ => ShortIds.resolvesBack_iff_first⟩

/-! ### An identifier of either version in one list -/

def firstVersionInfo : KeySetInfo := ⟨.v1 0, .sat, true, 0, none⟩

def secondVersionInfo : KeySetInfo := ⟨.v2 0, .sat, true, 0, none⟩

/-- A prefix of eight bytes cannot be cut from the identifier of the first version, and the first
seven bytes of the other are found in it. -/
theorem not_shortIds_resolve :
    ¬ (∀ short keysets, ShortIds.ResolvesSafely short keysets) ∧
      ¬ ∀ keysets id, ShortIds.ResolvesBack keysets id := by
  constructor
  · intro h
    have hsafe := h ⟨.version01, [0, 0, 0, 0, 0, 0, 0, 0]⟩ [firstVersionInfo, secondVersionInfo]
    exact hsafe.returns (by decide +kernel)
  · intro h
    have hback := h [firstVersionInfo, secondVersionInfo] (.v2 0) (by decide)
    have halone : ShortIds.Alone [firstVersionInfo, secondVersionInfo] (.v2 0) := by
      intro info hinfo hversion _
      simp only [List.mem_cons, List.not_mem_nil, or_false] at hinfo
      rcases hinfo with rfl | rfl
      · cases hversion
      · rfl
    have hfirst : Id.fromShortKeysetId (.ofId (.v2 0)) [firstVersionInfo, secondVersionInfo] =
        .ok (.v1 0) := by decide +kernel
    have hok := hback halone
    rw [hfirst] at hok
    cases hok

end Cdk
