import Cdk.Lib.Grouping
import Cdk.Nuts.ShortIds
import Cdk.Wallet.ProofInfo

/-!
# Tokens

A token of the fourth version groups its proofs by keyset and names the keysets
by short identifiers; a token of the third version gives the short identifier
with every proof. The groups come out of a hash map, in any order.
-/

namespace Cdk

open Lib

namespace Tokens

/-- Errors of NUT-00. -/
inductive Error where
  | nut02 (error : Nut02Error)
  | duplicateProofs
  | amountOverflow
  | unsupportedToken
  | unsupportedUnit
deriving DecidableEq, Repr

structure ProofV4 where
  amount : Amount
  secret : String
  c : PublicKey
  witness : Option Witness
  dleq : Option ProofDleq
deriving DecidableEq, Repr

structure ProofV3 where
  amount : Amount
  keysetId : ShortKeysetId
  secret : String
  c : PublicKey
  witness : Option Witness
  dleq : Option ProofDleq
deriving DecidableEq, Repr

/-- `ProofV4::into_proof`. -/
def ProofV4.intoProof (keysetId : Id) (p : ProofV4) : WalletProof :=
  ⟨⟨p.amount, keysetId, p.secret, p.c, p.witness⟩, p.dleq⟩

/-- `ProofV3::into_proof`. -/
def ProofV3.intoProof (keysetId : Id) (p : ProofV3) : WalletProof :=
  ⟨⟨p.amount, keysetId, p.secret, p.c, p.witness⟩, p.dleq⟩

/-- `ProofV4::from` of a proof. -/
def ProofV4.ofProof (p : WalletProof) : ProofV4 := ⟨p.amount, p.secret, p.c, p.witness, p.dleq⟩

/-- `ProofV4::from` of a proof of the third version. -/
def ProofV4.ofV3 (p : ProofV3) : ProofV4 := ⟨p.amount, p.secret, p.c, p.witness, p.dleq⟩

/-- The proofs of one keyset. -/
structure TokenV4Token where
  keysetId : ShortKeysetId
  proofs : List ProofV4
deriving DecidableEq, Repr

/-- `TokenV4Token::new`. -/
def TokenV4Token.new (keysetId : Id) (proofs : List WalletProof) : TokenV4Token :=
  ⟨.ofId keysetId, proofs.map ProofV4.ofProof⟩

structure TokenV4 where
  mintUrl : String
  unit : CurrencyUnit
  memo : Option String
  token : List TokenV4Token
deriving DecidableEq, Repr

/-- The proofs of one mint. -/
structure TokenV3Token where
  mint : String
  proofs : List ProofV3
deriving DecidableEq, Repr

structure TokenV3 where
  token : List TokenV3Token
  memo : Option String
  unit : Option CurrencyUnit
deriving DecidableEq, Repr

/-- A token of either version. -/
inductive Token where
  | tokenV3 (token : TokenV3)
  | tokenV4 (token : TokenV4)
deriving DecidableEq, Repr

/-! ## Proofs of a token -/

/-- A round of the loop of `TokenV4::proofs`. -/
def addProofs (mintKeysets : List KeySetInfo) (proofs : List WalletProof) (t : TokenV4Token) :
    Outcome Error (List WalletProof) := do
  let longId ← (Id.fromShortKeysetId t.keysetId mintKeysets).mapErr .nut02
  .ok (proofs ++ t.proofs.map (ProofV4.intoProof longId))

/-- `TokenV4::proofs`. -/
def TokenV4.proofs (token : TokenV4) (mintKeysets : List KeySetInfo) :
    Outcome Error (List WalletProof) :=
  token.token.foldlM (addProofs mintKeysets) []

/-- A round of the inner loop of `TokenV3::proofs`. -/
def addProof (mintKeysets : List KeySetInfo) (proofs : List WalletProof) (p : ProofV3) :
    Outcome Error (List WalletProof) := do
  let longId ← (Id.fromShortKeysetId p.keysetId mintKeysets).mapErr .nut02
  .ok (proofs ++ [p.intoProof longId])

/-- `TokenV3::proofs`. -/
def TokenV3.proofs (token : TokenV3) (mintKeysets : List KeySetInfo) :
    Outcome Error (List WalletProof) :=
  token.token.foldlM (fun proofs t => t.proofs.foldlM (addProof mintKeysets) proofs) []

/-- `Token::proofs`. -/
def Token.proofs : Token → List KeySetInfo → Outcome Error (List WalletProof)
  | .tokenV3 token, mintKeysets => token.proofs mintKeysets
  | .tokenV4 token, mintKeysets => token.proofs mintKeysets

/-- `Token::new`. -/
def Token.new (order : MapOrder Id (List WalletProof)) (mintUrl : String)
    (proofs : List WalletProof) (memo : Option String) (unit : CurrencyUnit) : Token :=
  let groups := order.read (groupBy (fun p => p.keysetId) id proofs)
  .tokenV4 ⟨mintUrl, unit, memo, groups.map fun (id, proofs) => .new id proofs⟩

/-! ## Conversions -/

/-- `TokenV3::from` of a token of the fourth version. -/
def TokenV3.ofV4 (token : TokenV4) : TokenV3 :=
  let proofs := token.token.flatMap fun t => t.proofs.map fun p =>
    ⟨p.amount, t.keysetId, p.secret, p.c, p.witness, p.dleq⟩
  ⟨[⟨token.mintUrl, proofs⟩], token.memo, some token.unit⟩

/-- `TokenV4::try_from` of a token of the third version. -/
def TokenV4.tryFromV3 (order : MapOrder ShortKeysetId (List ProofV4)) (token : TokenV3) :
    Outcome Error TokenV4 := do
  let mintUrls := token.token.map TokenV3Token.mint
  let proofs := token.token.flatMap TokenV3Token.proofs
  Outcome.ensure (mintUrls.length = 1) .unsupportedToken
  let mintUrl ← Outcome.ofOption .unsupportedToken mintUrls.head?
  let groups := order.read (groupBy ProofV3.keysetId ProofV4.ofV3 proofs)
  let unit ← Outcome.ofOption .unsupportedUnit token.unit
  .ok ⟨mintUrl, unit, token.memo, groups.map fun (id, proofs) => ⟨id, proofs⟩⟩

/-! ## Value -/

/-- The check and the sum that `TokenV3::value` and `TokenV4::value` have in common. The set of the
proofs has one element for equal ones. -/
def groupsValue {ρ : Type} [DecidableEq ρ] (amount : ρ → Amount) (groups : List (List ρ)) :
    Outcome Error Amount := do
  let proofs := groups.flatten
  let uniqueCount := proofs.dedup.length
  if uniqueCount ≠ proofs.length then .err .duplicateProofs
  else do
    let sums ← groups.mapM fun group =>
      Outcome.ofOption .amountOverflow (Amount.trySum (group.map amount))
    .ofOption .amountOverflow (Amount.trySum sums)

/-- `TokenV3::value`. -/
def TokenV3.value (token : TokenV3) : Outcome Error Amount :=
  groupsValue ProofV3.amount (token.token.map TokenV3Token.proofs)

/-- `TokenV4::value`. -/
def TokenV4.value (token : TokenV4) : Outcome Error Amount :=
  groupsValue ProofV4.amount (token.token.map TokenV4Token.proofs)

/-- `Token::value`. -/
def Token.value : Token → Outcome Error Amount
  | .tokenV3 token => token.value
  | .tokenV4 token => token.value

/-! ## Nothing is lost -/

section Proofs

variable {keysets : List KeySetInfo}

/-- Two listed keysets with the same first seven bytes have one identifier. -/
def DistinctPrefixes (keysets : List KeySetInfo) : Prop :=
  ∀ info ∈ keysets, ∀ other ∈ keysets,
    info.id.idBytes.take 7 = other.id.idBytes.take 7 → info.id = other.id

/-- Among distinct prefixes every listed identifier is resolved back. -/
theorem DistinctPrefixes.resolves (h : DistinctPrefixes keysets) {id : Id}
    (hid : id ∈ keysets.map KeySetInfo.id) :
    Id.fromShortKeysetId (.ofId id) keysets = .ok id := by
  obtain ⟨listed, hlisted, rfl⟩ := List.mem_map.mp hid
  have hback : ShortIds.ResolvesBack keysets listed.id := by
    rw [ShortIds.resolvesBack_iff_first]
    intro _ _ hversion info hfind
    have hbytes : info.id.idBytes.take 7 = listed.id.idBytes.take 7 := by
      have := List.find?_some hfind
      simpa using this
    rw [h info (List.mem_of_find?_eq_some hfind) listed hlisted hbytes, hversion]
  apply hback hid
  intro info hinfo _ hbytes
  exact h info hinfo listed hlisted hbytes

theorem addProofs_new {id : Id} (h : Id.fromShortKeysetId (.ofId id) keysets = .ok id)
    (acc proofs : List WalletProof) : addProofs keysets acc (.new id proofs) =
      .ok (acc ++ proofs.map fun p => (ProofV4.ofProof p).intoProof id) := by
  rw [addProofs, TokenV4Token.new, h, Outcome.mapErr, Outcome.bind_ok, List.map_map]
  rfl

/-- The proofs of groups whose identifiers are resolved back. -/
theorem foldlM_addProofs {groups : List (Id × List WalletProof)}
    (h : ∀ group ∈ groups, Id.fromShortKeysetId (.ofId group.1) keysets = .ok group.1)
    (acc : List WalletProof) :
    (groups.map fun (id, proofs) => TokenV4Token.new id proofs).foldlM (addProofs keysets) acc =
      .ok (acc ++ (pairsOf groups).map fun pair => (ProofV4.ofProof pair.2).intoProof pair.1) := by
  induction groups generalizing acc with
  | nil => simp
  | cons group rest ih =>
      obtain ⟨hgroup, hrest⟩ := List.forall_mem_cons.mp h
      obtain ⟨id, proofs⟩ := group
      rw [List.map_cons, List.foldlM_cons, addProofs_new hgroup, Outcome.bind_ok, ih hrest,
        pairsOf_cons, List.map_append, List.map_map, List.append_assoc]
      rfl

/-- A new token gives back its proofs, in some order. -/
theorem proofs_new (order : MapOrder Id (List WalletProof)) {proofs : List WalletProof}
    (hlisted : ∀ p ∈ proofs, p.keysetId ∈ keysets.map KeySetInfo.id)
    (hdistinct : DistinctPrefixes keysets) (mintUrl : String) (memo : Option String)
    (unit : CurrencyUnit) :
    ∃ found, (Token.new order mintUrl proofs memo unit).proofs keysets = .ok found ∧
      found.Perm proofs := by
  have hresolves : ∀ group ∈ order.read (groupBy (fun p : WalletProof => p.keysetId) id proofs),
      Id.fromShortKeysetId (.ofId group.1) keysets = .ok group.1 := by
    intro group hgroup
    obtain ⟨p, hp, hkey⟩ := exists_of_mem_groupBy ((order.perm _).mem_iff.mp hgroup)
    rw [← hkey]
    exact hdistinct.resolves (hlisted p hp)
  refine ⟨_, foldlM_addProofs hresolves [], ?_⟩
  have hpairs := pairsOf_read order (fun p : WalletProof => p.keysetId) id proofs
  have hmap := hpairs.map fun pair => (ProofV4.ofProof pair.2).intoProof pair.1
  rw [List.map_map] at hmap
  have hself : proofs.map ((fun pair : Id × WalletProof => (ProofV4.ofProof pair.2).intoProof
      pair.1) ∘ fun p => (p.keysetId, id p)) = proofs := List.map_id proofs
  rwa [hself] at hmap

end Proofs

/-- The proofs of a token of the fourth version with their keysets. -/
def TokenV4.keyed (token : TokenV4) : List (ShortKeysetId × ProofV4) :=
  token.token.flatMap fun t => t.proofs.map fun p => (t.keysetId, p)

/-- Two tokens carry the same mint, unit, memo and proofs. -/
structure TokenV4.Same (token other : TokenV4) : Prop where
  mintUrl : other.mintUrl = token.mintUrl
  unit : other.unit = token.unit
  memo : other.memo = token.memo
  proofs : other.keyed.Perm token.keyed

structure TokenV3.Same (token other : TokenV3) : Prop where
  mints : other.token.map TokenV3Token.mint = token.token.map TokenV3Token.mint
  unit : other.unit = token.unit
  memo : other.memo = token.memo
  proofs : (other.token.flatMap TokenV3Token.proofs).Perm (token.token.flatMap TokenV3Token.proofs)

section Conversions

variable (order : MapOrder ShortKeysetId (List ProofV4))

/-- A proof of the third version is a short identifier and a proof of the fourth. -/
def ProofV3.ofKeyed (pair : ShortKeysetId × ProofV4) : ProofV3 :=
  ⟨pair.2.amount, pair.1, pair.2.secret, pair.2.c, pair.2.witness, pair.2.dleq⟩

theorem proofs_ofV4 (token : TokenV4) :
    (TokenV3.ofV4 token).token.flatMap TokenV3Token.proofs = token.keyed.map ProofV3.ofKeyed := by
  rw [TokenV3.ofV4, List.flatMap_singleton, TokenV4.keyed, List.map_flatMap]
  simp only [List.map_map]
  rfl

/-- A token with one mint and a unit is converted, and keeps its pairs. -/
theorem tryFromV3_single (entry : TokenV3Token) (memo : Option String) (unit : CurrencyUnit) :
    ∃ token, TokenV4.tryFromV3 order ⟨[entry], memo, some unit⟩ = .ok token ∧
      token.mintUrl = entry.mint ∧ token.unit = unit ∧ token.memo = memo ∧
      token.keyed.Perm (entry.proofs.map fun p => (p.keysetId, ProofV4.ofV3 p)) := by
  refine ⟨_, rfl, rfl, rfl, rfl, ?_⟩
  have hpairs := pairsOf_read order ProofV3.keysetId ProofV4.ofV3 entry.proofs
  rw [TokenV4.keyed, List.flatMap_map]
  simpa [pairsOf] using hpairs

theorem convert_v4 (token : TokenV4) :
    ∃ back, TokenV4.tryFromV3 order (.ofV4 token) = .ok back ∧ token.Same back := by
  obtain ⟨back, hback, hmint, hunit, hmemo, hperm⟩ := tryFromV3_single order
    ⟨token.mintUrl, token.keyed.map ProofV3.ofKeyed⟩ token.memo token.unit
  refine ⟨back, ?_, hmint, hunit, hmemo, ?_⟩
  · rw [← hback, ← proofs_ofV4, TokenV3.ofV4, List.flatMap_singleton]
  · rw [List.map_map] at hperm
    have hself : token.keyed.map ((fun p : ProofV3 => (p.keysetId, ProofV4.ofV3 p)) ∘
        ProofV3.ofKeyed) = token.keyed := List.map_id token.keyed
    rwa [hself] at hperm

theorem convert_v3 {token : TokenV3} (hmints : token.token.length = 1)
    (hunit : token.unit.isSome = true) :
    ∃ converted, TokenV4.tryFromV3 order token = .ok converted ∧
      token.Same (.ofV4 converted) := by
  obtain ⟨entries, memo, unit⟩ := token
  obtain ⟨entry, rfl⟩ := List.length_eq_one_iff.mp hmints
  obtain ⟨unit, rfl⟩ := Option.isSome_iff_exists.mp hunit
  obtain ⟨converted, hconverted, hmint, hunit, hmemo, hperm⟩ :=
    tryFromV3_single order entry memo unit
  refine ⟨converted, hconverted, ?_, ?_, ?_, ?_⟩
  · exact congrArg (fun mint => [mint]) hmint
  · exact congrArg some hunit
  · exact hmemo
  · have hmap := hperm.map ProofV3.ofKeyed
    rw [List.map_map] at hmap
    have hself : entry.proofs.map (ProofV3.ofKeyed ∘ fun p => (p.keysetId, ProofV4.ofV3 p)) =
        entry.proofs := List.map_id entry.proofs
    rw [proofs_ofV4, List.flatMap_singleton]
    rwa [hself] at hmap

end Conversions

/-- For all proofs of listed keysets with distinct prefixes a new token gives them back, and both
conversions keep the data of every token that they accept. -/
theorem tokens_keepProofs {keysets : List KeySetInfo} (hdistinct : DistinctPrefixes keysets) :
    (∀ order mintUrl memo unit (proofs : List WalletProof),
      (∀ p ∈ proofs, p.keysetId ∈ keysets.map KeySetInfo.id) →
        ∃ found, (Token.new order mintUrl proofs memo unit).proofs keysets = .ok found ∧
          found.Perm proofs) ∧
    (∀ order (token : TokenV4), ∃ back,
      TokenV4.tryFromV3 order (.ofV4 token) = .ok back ∧ token.Same back) ∧
    ∀ order (token : TokenV3), token.token.length = 1 → token.unit.isSome = true →
      ∃ converted, TokenV4.tryFromV3 order token = .ok converted ∧
        token.Same (.ofV4 converted) :=
  ⟨fun order mintUrl memo unit _ hlisted => proofs_new order hlisted hdistinct mintUrl memo unit,
    convert_v4, fun order _ hmints hunit => convert_v3 order hmints hunit⟩

/-- Two proofs of listed keysets of either version. -/
def twoProofs : List WalletProof :=
  [⟨⟨1, .v2 0, "a", ⟨false, 1⟩, none⟩, none⟩, ⟨⟨2, .v1 1, "b", ⟨false, 1⟩, none⟩, none⟩]

def twoInfos : List KeySetInfo := [⟨.v1 1, .sat, true, 0, none⟩, ⟨.v2 0, .sat, true, 0, none⟩]

theorem twoInfos_distinct : DistinctPrefixes twoInfos := by
  intro info hinfo other hother hbytes
  simp only [twoInfos, List.mem_cons, List.not_mem_nil, or_false] at hinfo hother
  rcases hinfo with rfl | rfl
  · rcases hother with rfl | rfl
    · rfl
    · exact absurd hbytes (by decide +kernel)
  · rcases hother with rfl | rfl
    · exact absurd hbytes (by decide +kernel)
    · rfl

/-- A token of the third version with three proofs of two keysets, one with a DLEQ proof. -/
def threeToken : TokenV3 where
  token := [⟨"https://mint.example",
    [⟨1, .ofId (.v1 1), "a", ⟨false, 1⟩, none, some ⟨1, 2, 3⟩⟩,
      ⟨2, .ofId (.v2 0), "b", ⟨false, 2⟩, some (.p2pk ⟨["sig"]⟩), none⟩,
      ⟨4, .ofId (.v1 1), "c", ⟨true, 3⟩, none, none⟩]⟩]
  memo := some "memo"
  unit := some .sat

/-- A token of the two proofs gives them back, and a token of three is converted. -/
theorem tokens_keepProofs_two :
    (∃ found, (Token.new (.written _ _) "https://mint.example" twoProofs none .sat).proofs
      twoInfos = .ok found ∧ found.Perm twoProofs) ∧
    ∃ converted, TokenV4.tryFromV3 (.written _ _) threeToken = .ok converted ∧
      threeToken.Same (.ofV4 converted) := by
  obtain ⟨hnew, -, hconvert⟩ := tokens_keepProofs twoInfos_distinct
  refine ⟨hnew _ _ _ _ _ ?_, hconvert _ _ rfl rfl⟩
  decide

/-! ## Duplicates -/

section Values

variable {ρ : Type} [DecidableEq ρ] {amount : ρ → Amount} {groups : List (List ρ)}

/-- The amounts of all proofs together. -/
def totalOf (amount : ρ → Amount) (groups : List (List ρ)) : Nat :=
  Amount.total (groups.flatten.map amount)

theorem dedup_length_iff {xs : List ρ} : xs.dedup.length = xs.length ↔ xs.Nodup := by
  constructor
  · intro h
    rw [← List.dedup_eq_self]
    exact (List.dedup_sublist xs).eq_of_length h
  · intro h
    rw [h.dedup]

omit [DecidableEq ρ] in
theorem totalOf_cons (group : List ρ) (groups : List (List ρ)) :
    totalOf amount (group :: groups) = Amount.total (group.map amount) + totalOf amount groups := by
  rw [totalOf, totalOf, List.flatten_cons, List.map_append, Amount.total_append]

omit [DecidableEq ρ] in
theorem total_sums {sums : List Amount}
    (h : sums.map Amount.toNat = groups.map fun group => Amount.total (group.map amount)) :
    Amount.total sums = totalOf amount groups := by
  rw [Amount.total, h]
  clear h
  induction groups with
  | nil => rfl
  | cons group rest ih => rw [List.map_cons, List.sum_cons, ih, totalOf_cons]

omit [DecidableEq ρ] in
/-- The sums of the groups add up to the sum of all proofs, and none of them overflows before. -/
theorem mapM_trySum {v : Amount} :
    (groups.mapM (fun group =>
        Outcome.ofOption Error.amountOverflow (Amount.trySum (group.map amount))) >>= fun sums =>
      Outcome.ofOption .amountOverflow (Amount.trySum sums)) = .ok v ↔
        v.toNat = totalOf amount groups := by
  have hround : ∀ (group : List ρ) (sum : Amount),
      Outcome.ofOption Error.amountOverflow (Amount.trySum (group.map amount)) = .ok sum →
        sum.toNat = Amount.total (group.map amount) := by
    intro group sum h
    exact Amount.trySum_eq_total (Outcome.ofOption_eq_ok.mp h)
  simp only [Outcome.bind_eq_ok, Outcome.ofOption_eq_ok, Amount.trySum_eq_some]
  constructor
  · rintro ⟨sums, hsums, hv⟩
    rw [hv, total_sums (Outcome.map_of_mapM hsums hround)]
  · intro hv
    have hgroup : ∀ group ∈ groups, ∃ sum,
        Outcome.ofOption Error.amountOverflow (Amount.trySum (group.map amount)) = .ok sum := by
      intro group hmem
      have hle : Amount.total (group.map amount) ≤ totalOf amount groups :=
        Amount.total_le_of_sublist ((List.sublist_flatten_of_mem hmem).map amount)
      refine ⟨⟨Amount.total (group.map amount), ?_⟩, ?_⟩
      · exact (hle.trans hv.ge).trans_lt v.isLt
      · exact Outcome.ofOption_eq_ok.mpr (Amount.trySum_eq_some.mpr rfl)
    obtain ⟨sums, hsums⟩ := Outcome.exists_mapM hgroup
    exact ⟨sums, hsums, by rw [hv, total_sums (Outcome.map_of_mapM hsums hround)]⟩

/-- A value is given exactly for proofs that are all different and do not overflow. -/
theorem groupsValue_eq_ok {v : Amount} :
    groupsValue amount groups = .ok v ↔
      groups.flatten.Nodup ∧ v.toNat = totalOf amount groups := by
  unfold groupsValue
  dsimp only
  by_cases hnodup : groups.flatten.Nodup
  · rw [if_neg (not_not_intro (dedup_length_iff.mpr hnodup)), mapM_trySum, and_iff_right hnodup]
  · rw [if_pos (mt dedup_length_iff.mp hnodup)]
    simp [hnodup]

theorem groupsValue_ne_panic : groupsValue amount groups ≠ .panic := by
  unfold groupsValue
  dsimp only
  split
  · nofun
  · rw [Outcome.bind_ne_panic]
    exact ⟨Outcome.mapM_ne_panic fun _ _ => Outcome.ofOption_ne_panic _ _,
      fun _ _ => Outcome.ofOption_ne_panic _ _⟩

end Values

/-- `Token::token_secrets`. -/
def Token.tokenSecrets : Token → List String
  | .tokenV3 token => token.token.flatMap fun t => t.proofs.map ProofV3.secret
  | .tokenV4 token => token.token.flatMap fun t => t.proofs.map ProofV4.secret

/-- The amounts of all proofs of a token. -/
def Token.amounts : Token → List Amount
  | .tokenV3 token => token.token.flatMap fun t => t.proofs.map ProofV3.amount
  | .tokenV4 token => token.token.flatMap fun t => t.proofs.map ProofV4.amount

/-- Two proofs of a token are equal in all their fields; in the third version that includes the
keyset. -/
def Token.RepeatsProof : Token → Prop
  | .tokenV3 token => ¬ (token.token.map TokenV3Token.proofs).flatten.Nodup
  | .tokenV4 token => ¬ (token.token.map TokenV4Token.proofs).flatten.Nodup

/-- A value is the sum of proofs with different secrets, and there is an error if two proofs share
a secret. -/
structure NoSecretTwice (token : Token) : Prop where
  sum : ∀ v, token.value = .ok v → token.tokenSecrets.Nodup ∧ v.toNat = Amount.total token.amounts
  duplicate : ¬ token.tokenSecrets.Nodup → ∃ e, token.value = .err e

theorem Token.value_spec (token : Token) :
    token.value ≠ .panic ∧ ∀ v, token.value = .ok v ↔
      ¬ token.RepeatsProof ∧ v.toNat = Amount.total token.amounts := by
  cases token with
  | tokenV3 token =>
      refine ⟨groupsValue_ne_panic, fun v => groupsValue_eq_ok.trans ?_⟩
      rw [RepeatsProof, not_not, totalOf, amounts, List.map_flatten, List.map_map]
      rfl
  | tokenV4 token =>
      refine ⟨groupsValue_ne_panic, fun v => groupsValue_eq_ok.trans ?_⟩
      rw [RepeatsProof, not_not, totalOf, amounts, List.map_flatten, List.map_map]
      rfl

/-- For every token: no secret is counted twice exactly if the secrets are all different, or two
proofs are equal altogether, or the amounts overflow. -/
theorem noSecretTwice_iff (token : Token) :
    NoSecretTwice token ↔
      token.tokenSecrets.Nodup ∨ token.RepeatsProof ∨ 2 ^ 64 ≤ Amount.total token.amounts := by
  obtain ⟨hreturns, hvalue⟩ := token.value_spec
  constructor
  · intro h
    by_contra hnone
    simp only [not_or, Nat.not_le] at hnone
    obtain ⟨hsecrets, hrepeats, hlt⟩ := hnone
    have hok := (hvalue ⟨Amount.total token.amounts, hlt⟩).mpr ⟨hrepeats, rfl⟩
    exact hsecrets (h.sum _ hok).1
  · intro h
    refine ⟨fun v hv => ?_, fun hsecrets => ?_⟩
    · obtain ⟨hrepeats, hsum⟩ := (hvalue v).mp hv
      have hlt := v.isLt
      refine ⟨h.resolve_right ?_, hsum⟩
      rintro (hequal | hlarge)
      · exact hrepeats hequal
      · omega
    · cases hresult : token.value with
      | ok v =>
          obtain ⟨hrepeats, hsum⟩ := (hvalue v).mp hresult
          have hlt := v.isLt
          rcases h with hnodup | hequal | hlarge
          · exact absurd hnodup hsecrets
          · exact absurd hequal hrepeats
          · omega
      | err e => exact ⟨e, rfl⟩
      | panic => exact absurd hresult hreturns

/-- Two proofs with one secret and different signatures. -/
def sharedSecret : Token :=
  .tokenV4 ⟨"https://mint.example", .sat, none,
    [⟨⟨.version00, [0, 0, 0, 0, 0, 0, 0]⟩,
      [⟨1, "a", ⟨false, 1⟩, none, none⟩, ⟨1, "a", ⟨false, 2⟩, none, none⟩]⟩]⟩

/-- They are counted twice. -/
theorem not_noSecretTwice_shared : ¬ ∀ token, NoSecretTwice token := by
  intro h
  have hvalue : sharedSecret.value = .ok 2 := by decide +kernel
  have hsecrets := ((h sharedSecret).sum 2 hvalue).1
  exact absurd hsecrets (by decide)

end Tokens

end Cdk
