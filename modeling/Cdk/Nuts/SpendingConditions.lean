import Cdk.Nuts.SigAllMessage

/-!
# From spending conditions to secrets

The sender's direction: conditions are written as tags and spending conditions
as a NUT-10 secret with a fresh nonce. What is written is read back, as long as
the numbers fit their type and the curve library reads the texts of its keys.
-/

namespace Cdk

open Lib

def TagKind.toText : TagKind → String
  | .sigFlag => "sigflag"
  | .nSigs => "n_sigs"
  | .locktime => "locktime"
  | .refund => "refund"
  | .pubkeys => "pubkeys"
  | .nSigsRefund => "n_sigs_refund"
  | .custom name => name

def SigFlag.toText : SigFlag → String
  | .sigAll => "SIG_ALL"
  | .sigInputs => "SIG_INPUTS"

/-- `Tag::as_vec`. -/
def Tag.asVec : Tag → List String
  | .sigFlag flag => [TagKind.sigFlag.toText, flag.toText]
  | .nSigs n => [TagKind.nSigs.toText, toString n]
  | .lockTime time => [TagKind.locktime.toText, toString time]
  | .pubKeys keys => TagKind.pubkeys.toText :: keys.map PublicKey.toHex
  | .refund keys => TagKind.refund.toText :: keys.map PublicKey.toHex
  | .nSigsRefund n => [TagKind.nSigsRefund.toText, toString n]
  | .custom name values => name :: values

namespace Conditions

/-- The tags of the fields that are set, in the order they are written. -/
def typedTags (c : Conditions) : List Tag :=
  (c.pubkeys.map Tag.pubKeys).toList ++ (c.locktime.map Tag.lockTime).toList ++
    (c.numSigs.map Tag.nSigs).toList ++ (c.refundKeys.map Tag.refund).toList ++
      (c.numSigsRefund.map Tag.nSigsRefund).toList ++ [Tag.sigFlag c.sigFlag]

/-- `Vec::<Vec<String>>::from(conditions)`. -/
def toTags (c : Conditions) : List (List String) := c.typedTags.map Tag.asVec

end Conditions

namespace SpendingConditions

/-- `SpendingConditions::new_htlc`: the lock is the hash of the decoded bytes. -/
def newHtlc (env : Env) (preimage : String) (conditions : Option Conditions) :
    Outcome HexError SpendingConditions := do
  let bytes ← hexDecode preimage
  .ok (.htlc (env.sha256 bytes) conditions)

/-- `nut10::Secret::from(conditions)` with the nonce it draws. -/
def toSecret (nonce : String) : SpendingConditions → Nut10Secret
  | p2pk data conditions => ⟨.p2pk, ⟨nonce, data.toHex, conditions.map Conditions.toTags⟩⟩
  | htlc data conditions => ⟨.htlc, ⟨nonce, sha256Text data, conditions.map Conditions.toTags⟩⟩

end SpendingConditions

/-! ## Reading back -/

/-- The text of the key is read back by the curve library. -/
def PublicKey.Readable (env : Env) (key : PublicKey) : Prop :=
  env.parsePublicKey key.toHex = some key

/-- Numbers fit their type and keys are read back. -/
def Tag.Readable (env : Env) : Tag → Prop
  | .sigFlag _ => True
  | .nSigs n | .lockTime n | .nSigsRefund n => n < 2 ^ 64
  | .pubKeys keys | .refund keys => ∀ key ∈ keys, key.Readable env
  | .custom name _ => TagKind.ofText name = .custom name

/-- Every field of the conditions can be written as a tag. -/
def Conditions.Readable (env : Env) (c : Conditions) : Prop :=
  ∀ tag ∈ c.typedTags, tag.Readable env

section ReadBack

variable {env : Env}

theorem Tag.parseKeys_toHex {keys : List PublicKey} (h : ∀ key ∈ keys, key.Readable env)
    (kind : String) : Tag.parseKeys env (kind :: keys.map PublicKey.toHex) = .ok keys := by
  unfold Tag.parseKeys
  rw [List.drop_one, List.tail_cons]
  induction keys with
  | nil => rfl
  | cons key rest ih =>
      have hkey : env.parsePublicKey key.toHex = some key := h key List.mem_cons_self
      rw [List.map_cons, List.mapM_cons, hkey, ih fun k hk => h k (List.mem_cons_of_mem _ hk)]
      rfl

theorem Tag.parseNumber_toString {n : Nat} (hn : n < 2 ^ 64) (kind : String) :
    Tag.parseNumber [kind, toString n] = .ok n := by
  have hvalue : Tag.value [kind, toString n] = .ok (toString n) := rfl
  rw [Tag.parseNumber, hvalue, Outcome.bind_ok, parseU64_toString hn]
  rfl

/-- A tag is read back from its texts. -/
theorem Tag.tryFrom_asVec {tag : Tag} (h : tag.Readable env) :
    Tag.tryFrom env tag.asVec = .ok tag := by
  cases tag with
  | sigFlag flag => cases flag <;> rfl
  | nSigs n =>
      have hn := Tag.parseNumber_toString h TagKind.nSigs.toText
      change (Tag.parseNumber _ >>= fun n => Outcome.ok (Tag.nSigs n)) = _
      rw [Tag.asVec, hn, Outcome.bind_ok]
  | lockTime time =>
      have hn := Tag.parseNumber_toString h TagKind.locktime.toText
      change (Tag.parseNumber _ >>= fun n => Outcome.ok (Tag.lockTime n)) = _
      rw [Tag.asVec, hn, Outcome.bind_ok]
  | nSigsRefund n =>
      have hn := Tag.parseNumber_toString h TagKind.nSigsRefund.toText
      change (Tag.parseNumber _ >>= fun n => Outcome.ok (Tag.nSigsRefund n)) = _
      rw [Tag.asVec, hn, Outcome.bind_ok]
  | refund keys =>
      have hk := Tag.parseKeys_toHex h TagKind.refund.toText
      change (Tag.parseKeys env _ >>= fun keys => Outcome.ok (Tag.refund keys)) = _
      rw [Tag.asVec, hk, Outcome.bind_ok]
  | pubKeys keys =>
      have hk := Tag.parseKeys_toHex h TagKind.pubkeys.toText
      change (Tag.parseKeys env _ >>= fun keys => Outcome.ok (Tag.pubKeys keys)) = _
      rw [Tag.asVec, hk, Outcome.bind_ok]
  | custom name values =>
      have hname : TagKind.ofText name = .custom name := h
      simp only [Tag.tryFrom, Tag.asVec, List.head?_cons, Outcome.ofOption_some, Outcome.bind_ok,
        hname, List.drop_one, List.tail_cons]

theorem Conditions.ofTags_typedTags (c : Conditions) : Conditions.ofTags c.typedTags = c := by
  obtain ⟨locktime, pubkeys, refundKeys, numSigs, sigFlag, numSigsRefund⟩ := c
  cases locktime <;> cases pubkeys <;> cases refundKeys <;> cases numSigs <;>
    cases numSigsRefund <;> rfl

/-- Conditions are read back from their tags. -/
theorem Conditions.tryFrom_toTags {c : Conditions} (h : c.Readable env) :
    Conditions.tryFrom env c.toTags = .ok c := by
  have hmap : ∀ tags : List Tag, (∀ tag ∈ tags, tag.Readable env) →
      (tags.map Tag.asVec).mapM
        (fun tag => Conditions.unwrapTag (Tag.tryFrom env tag)) = .ok tags := by
    intro tags htags
    induction tags with
    | nil => rfl
    | cons tag rest ih =>
        rw [List.map_cons, List.mapM_cons, Tag.tryFrom_asVec (htags tag List.mem_cons_self),
          ih fun t ht => htags t (List.mem_cons_of_mem _ ht)]
        rfl
  rw [Conditions.tryFrom, Conditions.toTags, hmap c.typedTags h, Outcome.bind_ok,
    Conditions.ofTags_typedTags]

/-- The conditions of the sender's secret are the sender's. -/
theorem Conditions.ofSecret_of_tags {secret : Nut10Secret} {conditions : Option Conditions}
    (htags : secret.secretData.tags = conditions.map Conditions.toTags)
    (h : ∀ c, conditions = some c → c.Readable env) :
    Conditions.ofSecret env secret = .ok conditions := by
  unfold Conditions.ofSecret
  cases conditions with
  | none => rw [htags, Option.map_none]
  | some c =>
      rw [htags, Option.map_some]
      dsimp only
      rw [Conditions.tryFrom_toTags (h c rfl)]
      rfl

end ReadBack

/-! ## Through the JSON text -/

/-- The JSON text of the secret is read back. -/
def Nut10Secret.Readable (env : Env) (secret : Nut10Secret) : Prop :=
  env.parseSecret secret.toText = some secret

/-- The key and every field of the conditions are read back. -/
def SpendingConditions.Readable (env : Env) : SpendingConditions → Prop
  | p2pk data conditions => data.Readable env ∧ ∀ c, conditions = some c → c.Readable env
  | htlc _ conditions => ∀ c, conditions = some c → c.Readable env

/-- Spending conditions are read back from the text of their secret. -/
theorem SpendingConditions.tryFrom_toText {env : Env} {spending : SpendingConditions}
    {nonce : String} (h : spending.Readable env) (hjson : (spending.toSecret nonce).Readable env) :
    SpendingConditions.tryFrom env (spending.toSecret nonce).toText = .ok spending := by
  have hparse : env.parseSecret (spending.toSecret nonce).toText =
      some (spending.toSecret nonce) := hjson
  rw [SpendingConditions.tryFrom, hparse, Outcome.ofOption_some, Outcome.bind_ok]
  cases spending with
  | p2pk data conditions =>
      obtain ⟨hdata, hconditions⟩ := h
      have hkey : env.parsePublicKey data.toHex = some data := hdata
      have hread : Conditions.ofSecret env (toSecret nonce (p2pk data conditions)) =
          .ok conditions := Conditions.ofSecret_of_tags rfl hconditions
      simp only [toSecret] at hread ⊢
      rw [hkey, Outcome.ofOption_some, Outcome.bind_ok, hread, Outcome.bind_ok]
  | htlc data conditions =>
      have hread : Conditions.ofSecret env (toSecret nonce (htlc data conditions)) =
          .ok conditions := Conditions.ofSecret_of_tags rfl h
      simp only [toSecret] at hread ⊢
      rw [parseSha256_sha256Text, Outcome.ofOption_some, Outcome.bind_ok, hread, Outcome.bind_ok]

/-- For all conditions and all spending conditions: what is written as tags, as a secret and as
its text is read back as it was. -/
theorem spendingConditions_roundTrip (env : Env) :
    (∀ c : Conditions, c.Readable env → Conditions.tryFrom env c.toTags = .ok c) ∧
      ∀ (spending : SpendingConditions) (nonce : String), spending.Readable env →
        (spending.toSecret nonce).Readable env →
          SpendingConditions.tryFrom env (spending.toSecret nonce).toText = .ok spending :=
  ⟨fun _ => Conditions.tryFrom_toTags, fun _ _ => SpendingConditions.tryFrom_toText⟩

/-- Every field is set, one list of keys is empty, and the locktime is the last one there is. -/
def fullConditions : Conditions where
  locktime := some (2 ^ 64 - 1)
  pubkeys := some []
  refundKeys := some [⟨true, 1⟩, ⟨false, 2⟩]
  numSigs := some 0
  sigFlag := .sigAll
  numSigsRefund := some 2

def fullSpending : SpendingConditions := .p2pk ⟨false, 2⟩ (some fullConditions)

/-- The environment reads the text of one secret and the two keys in it. -/
def fullEnv : Env where
  parseSecret text :=
    if text = (fullSpending.toSecret "nonce").toText then some (fullSpending.toSecret "nonce")
    else none
  parsePublicKey text := [⟨true, 1⟩, ⟨false, 2⟩].find? fun key => PublicKey.toHex key = text
  verifySchnorr _ _ _ := false
  sha256 _ := 0
  hashToCurve _ := none
  signMessage _ _ _ := none
  verifyMessage _ _ _ _ := false

theorem fullEnv_readable :
    PublicKey.Readable fullEnv ⟨true, 1⟩ ∧ PublicKey.Readable fullEnv ⟨false, 2⟩ := by
  unfold PublicKey.Readable
  decide +kernel

theorem fullConditions_readable : fullConditions.Readable fullEnv := by
  obtain ⟨hodd, heven⟩ := fullEnv_readable
  have hkeys : ∀ key ∈ [(⟨true, 1⟩ : PublicKey), ⟨false, 2⟩], key.Readable fullEnv := by
    rw [List.forall_mem_cons]
    exact ⟨hodd, List.forall_mem_singleton.mpr heven⟩
  rintro tag htag
  simp only [Conditions.typedTags, fullConditions, Option.map_some, Option.toList_some,
    List.mem_append, List.mem_singleton, or_assoc] at htag
  rcases htag with rfl | rfl | rfl | rfl | rfl | rfl
  · exact List.forall_mem_nil _
  · exact Nat.sub_lt (by decide) (by decide)
  · exact Nat.two_pow_pos 64
  · exact hkeys
  · exact Nat.lt_two_pow_self.trans (by decide)
  · trivial

theorem fullEnv_parseSecret : (fullSpending.toSecret "nonce").Readable fullEnv := by
  simp only [Nut10Secret.Readable, fullEnv, if_true]

theorem spendingConditions_roundTrip_full :
    Conditions.tryFrom fullEnv fullConditions.toTags = .ok fullConditions ∧
      SpendingConditions.tryFrom fullEnv (fullSpending.toSecret "nonce").toText =
        .ok fullSpending := by
  refine ⟨(spendingConditions_roundTrip fullEnv).1 _ fullConditions_readable,
    (spendingConditions_roundTrip fullEnv).2 fullSpending "nonce" ⟨fullEnv_readable.2, ?_⟩
      fullEnv_parseSecret⟩
  rintro _ ⟨⟩
  exact fullConditions_readable

end Cdk
