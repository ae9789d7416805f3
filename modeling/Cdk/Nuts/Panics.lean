import Cdk.Nuts.Htlc

/-!
# Panics of condition parsing

The value of a tag is read at index one without a look at its length, and the
error of a tag that does not parse is unwrapped. The tags of a secret that
reaches one of the checks are therefore well formed or the check panics.
-/

namespace Cdk

open Lib

/-- The kinds of tags with one value. -/
def TagKind.hasValue : TagKind → Bool
  | .sigFlag | .nSigs | .locktime | .nSigsRefund => true
  | .refund | .pubkeys | .custom _ => false

namespace Tag

/-- A tag of a kind with a value has one. -/
def complete : List String → Bool
  | [] => true
  | kind :: values => !(TagKind.ofText kind).hasValue || !values.isEmpty

/-- The texts after the kind of a tag are what the kind asks for. -/
def valuesReadable (env : Env) (values : List String) : TagKind → Bool
  | .sigFlag => values.head?.any fun text => text = "SIG_ALL" ∨ text = "SIG_INPUTS"
  | .nSigs | .locktime | .nSigsRefund => values.head?.any fun text => (parseU64 text).isSome
  | .refund | .pubkeys => values.all fun text => (env.parsePublicKey text).isSome
  | .custom _ => true

/-- A tag has a kind and the values that it asks for. -/
def wellFormed (env : Env) : List String → Bool
  | [] => false
  | kind :: values => valuesReadable env values (TagKind.ofText kind)

end Tag

/-- All tags of a secret that parses are well formed. -/
def TagsWellFormed (env : Env) (text : String) : Prop :=
  ∀ secret, env.parseSecret text = some secret →
    ∀ tag ∈ secret.secretData.tags.getD [], Tag.wellFormed env tag = true

/-- The data of a secret is a key or a hash, as its kind asks for. -/
def Nut10Secret.dataReadable (env : Env) (secret : Nut10Secret) : Bool :=
  match secret.kind with
  | .p2pk => (env.parsePublicKey secret.secretData.data).isSome
  | .htlc => (parseSha256 secret.secretData.data).isSome

section Tags

variable {env : Env} {kind : String} {values : List String} {tag : List String}
  {tags : List (List String)}

theorem Tag.value_cons : Tag.value (kind :: values) = .expect values.head? := by
  cases values <;> rfl

theorem SigFlag.fromStr_ne_panic (text : String) : SigFlag.fromStr text ≠ .panic := by
  unfold SigFlag.fromStr
  split <;> simp

theorem SigFlag.fromStr_eq_ok {text : String} :
    (∃ flag, SigFlag.fromStr text = .ok flag) ↔ text = "SIG_ALL" ∨ text = "SIG_INPUTS" := by
  unfold SigFlag.fromStr
  split <;> simp_all

theorem Tag.parseNumber_ne_panic :
    Tag.parseNumber (kind :: values) ≠ .panic ↔ values.isEmpty = false := by
  rw [Tag.parseNumber, Tag.value_cons]
  cases values <;> simp [Outcome.expect]

theorem Tag.parseNumber_eq_ok : (∃ n, Tag.parseNumber (kind :: values) = .ok n) ↔
    values.head?.any (fun text => (parseU64 text).isSome) = true := by
  rw [Tag.parseNumber, Tag.value_cons]
  cases values <;> simp [Outcome.expect, Option.isSome_iff_exists]

theorem Tag.parseKeys_ne_panic : Tag.parseKeys env tag ≠ .panic :=
  Outcome.mapM_ne_panic fun _ _ => Outcome.ofOption_ne_panic _ _

theorem Tag.parseKeys_eq_ok : (∃ keys, Tag.parseKeys env (kind :: values) = .ok keys) ↔
    values.all (fun text => (env.parsePublicKey text).isSome) = true := by
  rw [Tag.parseKeys, List.drop_one, List.tail_cons, List.all_eq_true]
  simp only [Option.isSome_iff_exists]
  constructor
  · rintro ⟨keys, hkeys⟩ text htext
    obtain ⟨key, -, hkey⟩ := Outcome.exists_mem_of_mapM hkeys htext
    exact ⟨key, Outcome.ofOption_eq_ok.mp hkey⟩
  · intro h
    apply Outcome.exists_mapM
    intro text htext
    obtain ⟨key, hkey⟩ := h text htext
    exact ⟨key, Outcome.ofOption_eq_ok.mpr hkey⟩

/-- Only a missing value makes the parser of a tag panic. -/
theorem Tag.tryFrom_ne_panic : Tag.tryFrom env tag ≠ .panic ↔ Tag.complete tag = true := by
  cases tag with
  | nil => simp [Tag.tryFrom, Tag.complete, Outcome.ofOption]
  | cons kind values =>
      rw [Tag.tryFrom, Tag.complete, List.head?_cons, Outcome.ofOption_some, Outcome.bind_ok]
      cases TagKind.ofText kind <;>
        simp [TagKind.hasValue, Outcome.bind_ne_panic, Tag.parseNumber_ne_panic,
          Tag.parseKeys_ne_panic]
      case sigFlag =>
        rw [Tag.value_cons]
        cases values <;> simp [Outcome.expect, SigFlag.fromStr_ne_panic]

/-- A tag parses exactly when it is well formed. -/
theorem Tag.tryFrom_eq_ok :
    (∃ t, Tag.tryFrom env tag = .ok t) ↔ Tag.wellFormed env tag = true := by
  cases tag with
  | nil => simp [Tag.tryFrom, Tag.wellFormed, Outcome.ofOption]
  | cons kind values =>
      rw [Tag.tryFrom, Tag.wellFormed, List.head?_cons, Outcome.ofOption_some, Outcome.bind_ok]
      cases TagKind.ofText kind with
      | sigFlag =>
          rw [Tag.value_cons, Tag.valuesReadable]
          cases values with
          | nil => simp [Outcome.expect]
          | cons text rest =>
              simp only [Outcome.bind_eq_ok]
              simpa [Outcome.expect, Outcome.bind_eq_ok] using @SigFlag.fromStr_eq_ok text
      | nSigs =>
          rw [Tag.valuesReadable, ← @Tag.parseNumber_eq_ok kind]
          simp [Outcome.bind_eq_ok]
      | locktime =>
          rw [Tag.valuesReadable, ← @Tag.parseNumber_eq_ok kind]
          simp [Outcome.bind_eq_ok]
      | nSigsRefund =>
          rw [Tag.valuesReadable, ← @Tag.parseNumber_eq_ok kind]
          simp [Outcome.bind_eq_ok]
      | refund =>
          rw [Tag.valuesReadable, ← @Tag.parseKeys_eq_ok env kind]
          simp [Outcome.bind_eq_ok]
      | pubkeys =>
          rw [Tag.valuesReadable, ← @Tag.parseKeys_eq_ok env kind]
          simp [Outcome.bind_eq_ok]
      | custom name => simp [Tag.valuesReadable]

/-- The unwrapped tags are all well formed. -/
theorem Conditions.tryFrom_ne_panic : Conditions.tryFrom env tags ≠ .panic ↔
    ∀ tag ∈ tags, Tag.wellFormed env tag = true := by
  have hunwrap : ∀ tag, Conditions.unwrapTag (Tag.tryFrom env tag) ≠ .panic ↔
      ∃ t, Tag.tryFrom env tag = .ok t := by
    intro tag
    cases Tag.tryFrom env tag <;> simp [Conditions.unwrapTag]
  constructor
  · intro h tag htag
    cases hc : Conditions.tryFrom env tags with
    | ok c =>
        rw [Conditions.tryFrom, Outcome.bind_eq_ok] at hc
        obtain ⟨ts, hts, -⟩ := hc
        obtain ⟨t, -, ht⟩ := Outcome.exists_mem_of_mapM hts htag
        apply Tag.tryFrom_eq_ok.mp
        rw [← hunwrap, ht]
        simp
    | err e => exact absurd hc (Conditions.tryFrom_ne_err env tags e)
    | panic => exact absurd hc h
  · intro h
    rw [Conditions.tryFrom, Outcome.bind_ne_panic]
    refine ⟨Outcome.mapM_ne_panic fun tag htag => ?_, fun _ _ => by simp⟩
    exact (hunwrap tag).mpr (Tag.tryFrom_eq_ok.mpr (h tag htag))

end Tags

section Secrets

variable {env : Env} {secret : Nut10Secret}

theorem Conditions.ofSecret_ne_panic : Conditions.ofSecret env secret ≠ .panic ↔
    ∀ tag ∈ secret.secretData.tags.getD [], Tag.wellFormed env tag = true := by
  rw [Conditions.ofSecret]
  cases secret.secretData.tags with
  | none => simp
  | some tags => rw [Outcome.toOption_ne_panic, Conditions.tryFrom_ne_panic, Option.getD_some]

/-- A check that parses the secret first panics with what it does on the secret. -/
theorem parsed_ne_panic {ε α : Type} (e : ε) (text : String) (f : Nut10Secret → Outcome ε α) :
    (Outcome.ofOption e (env.parseSecret text) >>= f) ≠ .panic ↔
      ∀ secret, env.parseSecret text = some secret → f secret ≠ .panic := by
  simp only [Outcome.bind_ne_panic, Outcome.ofOption_eq_ok, ne_eq, Outcome.ofOption_ne_panic,
    not_false_eq_true, true_and]

theorem SpendingConditions.tryFrom_ne_panic (text : String) :
    SpendingConditions.tryFrom env text ≠ .panic ↔ ∀ secret, env.parseSecret text = some secret →
      secret.dataReadable env = true →
        ∀ tag ∈ secret.secretData.tags.getD [], Tag.wellFormed env tag = true := by
  rw [SpendingConditions.tryFrom, parsed_ne_panic]
  apply forall₂_congr
  intro secret _
  rw [← Conditions.ofSecret_ne_panic, Nut10Secret.dataReadable]
  cases secret.kind with
  | p2pk =>
      dsimp only
      cases env.parsePublicKey secret.secretData.data with
      | none => simp [Outcome.ofOption]
      | some key => simp [Outcome.ofOption, Outcome.bind_ne_panic]
  | htlc =>
      dsimp only
      cases parseSha256 secret.secretData.data with
      | none => simp [Outcome.ofOption]
      | some hash => simp [Outcome.ofOption, Outcome.bind_ne_panic]

end Secrets

section Checks

variable {env : Env} {now : Nat} {msg : List UInt8}

theorem countSignature_ne_panic (verified : List PublicKey) (key : PublicKey) (sig : Signature) :
    countSignature env msg verified key sig ≠ .panic := by
  unfold countSignature insertKey
  split
  · split <;> simp
  · simp

theorem validSignatures_ne_panic (pubkeys : List PublicKey) (signatures : List Signature) :
    validSignatures env msg pubkeys signatures ≠ .panic := by
  rw [validSignatures, Outcome.bind_ne_panic]
  refine ⟨Outcome.foldlM_ne_panic (fun verified key _ => ?_) [], fun _ _ => nofun⟩
  exact Outcome.foldlM_ne_panic (fun verified sig _ => countSignature_ne_panic verified key sig) _

theorem verifyThreshold_ne_panic (pubkeys : List PublicKey) (signatures : List String)
    (needed : Nat) : verifyThreshold env msg pubkeys signatures needed ≠ .panic := by
  rw [verifyThreshold, Outcome.bind_ne_panic]
  refine ⟨Outcome.foldlM_ne_panic (fun verified text _ => ?_) [], fun _ _ => by simp⟩
  apply Outcome.foldlM_ne_panic
  intro verified key _
  rw [Outcome.bind_ne_panic]
  exact ⟨Outcome.ofOption_ne_panic _ _, fun sig _ => countSignature_ne_panic verified key sig⟩

theorem refundLoop_ne_panic (needed : Nat) (keys : List PublicKey) (texts : List String)
    (valid : List PublicKey) : refundLoop env msg needed keys texts valid ≠ .panic := by
  induction texts generalizing valid with
  | nil => exact nofun
  | cons text rest ih =>
      unfold refundLoop
      split
      · exact nofun
      · split
        · exact nofun
        · exact ih _

theorem parseSignatures_ne_panic (texts : Option (List String)) :
    parseSignatures texts ≠ .panic := by
  rw [parseSignatures, Outcome.bind_ne_panic]
  refine ⟨Outcome.ofOption_ne_panic _ _, fun texts _ => ?_⟩
  exact Outcome.mapM_ne_panic fun _ _ => Outcome.ofOption_ne_panic _ _

theorem locktimeUnlocks_ne_panic (c : Conditions) (w : HtlcWitness) :
    locktimeUnlocks env now msg c w ≠ .panic := by
  unfold locktimeUnlocks
  split
  · exact nofun
  · exact nofun
  · simp [Outcome.bind_ne_panic, parseSignatures_ne_panic, validSignatures_ne_panic]

theorem pubkeysSigned_ne_panic (c : Conditions) (w : HtlcWitness) :
    pubkeysSigned env msg c w ≠ .panic := by
  unfold pubkeysSigned
  split
  · exact nofun
  · simp [Outcome.bind_ne_panic, parseSignatures_ne_panic, validSignatures_ne_panic]

theorem preimageMatches_ne_panic (secret : Nut10Secret) (w : HtlcWitness) :
    preimageMatches env secret w ≠ .panic := by
  simp [preimageMatches, Outcome.bind_ne_panic]

/-- The check of P2PK proofs panics only on the tags of its secret. -/
theorem verifyP2pk_ne_panic (proof : Proof) :
    verifyP2pk env now proof ≠ .panic ↔ TagsWellFormed env proof.secret := by
  rw [verifyP2pk, parsed_ne_panic, TagsWellFormed]
  apply forall₂_congr
  intro secret _
  rw [Outcome.bind_ne_panic, Conditions.tryFrom_ne_panic]
  refine and_iff_left ?_
  intro c _
  rw [Outcome.bind_ne_panic]
  refine ⟨Outcome.ofOption_ne_panic _ _, fun texts _ => ?_⟩
  split
  · exact refundLoop_ne_panic _ _ _ _
  · exact nofun
  · cases secret.kind <;>
      simp [Outcome.bind_ne_panic, verifyThreshold_ne_panic]

/-- The check of HTLC proofs panics only on the tags of its secret. -/
theorem verifyHtlc_ne_panic (proof : Proof) :
    verifyHtlc env now proof ≠ .panic ↔ TagsWellFormed env proof.secret := by
  rw [verifyHtlc, parsed_ne_panic, TagsWellFormed]
  apply forall₂_congr
  intro secret _
  rw [Outcome.bind_ne_panic, Outcome.mapErr_ne_panic, Conditions.ofSecret_ne_panic]
  refine and_iff_left ?_
  intro conditions _
  rw [Outcome.bind_ne_panic]
  refine ⟨?_, fun w _ => ?_⟩
  · unfold htlcWitness
    split <;> simp
  · cases conditions with
    | none => exact preimageMatches_ne_panic secret w
    | some c =>
        dsimp only
        rw [Outcome.bind_ne_panic]
        refine ⟨locktimeUnlocks_ne_panic c w, fun unlocked _ => ?_⟩
        cases unlocked <;>
          simp [Outcome.bind_ne_panic, pubkeysSigned_ne_panic, preimageMatches_ne_panic]

theorem enforceStep_ne_panic (acc : EnforceSigFlag) (proof : Proof) :
    enforceStep env acc proof ≠ .panic ↔ TagsWellFormed env proof.secret := by
  rw [enforceStep, TagsWellFormed]
  cases env.parseSecret proof.secret with
  | none => simp
  | some secret =>
      simp only [Option.some.injEq, forall_eq']
      rw [Outcome.bind_ne_panic, Conditions.ofSecret_ne_panic]
      refine and_iff_left ?_
      intro conditions _
      cases conditions <;> exact nofun

/-- One round of the signature flag returns no error. -/
theorem enforceStep_ne_err (acc : EnforceSigFlag) (proof : Proof) (e : Nut11Error) :
    enforceStep env acc proof ≠ .err e := by
  rw [enforceStep]
  split
  · exact nofun
  · rename_i secret _
    cases hc : Conditions.ofSecret env secret with
    | ok conditions =>
        simp only [Outcome.bind_ok]
        cases conditions <;> exact nofun
    | err e' =>
        rw [Conditions.ofSecret] at hc
        split at hc
        · rename_i tags _
          cases ht : Conditions.tryFrom env tags <;> rw [ht] at hc <;> cases hc
        · cases hc
    | panic => simp

theorem enforceSigFlag_ne_panic (proofs : List Proof) : enforceSigFlag env proofs ≠ .panic ↔
    ∀ proof ∈ proofs, TagsWellFormed env proof.secret := by
  rw [enforceSigFlag]
  generalize (⟨.sigInputs, [], 1⟩ : EnforceSigFlag) = acc
  induction proofs generalizing acc with
  | nil => simp
  | cons proof rest ih =>
      rw [List.foldlM_cons, List.forall_mem_cons, ← enforceStep_ne_panic acc]
      cases hstep : enforceStep env acc proof with
      | ok acc' =>
          rw [Outcome.bind_ok, ih acc']
          simp
      | err e => exact absurd hstep (enforceStep_ne_err acc proof e)
      | panic => simp

end Checks

/-- For every tag, all tags, every secret and all proofs: parsing a tag returns exactly if no value
is missing, and parsing conditions, the three checks that use them and the signature flag return
exactly if the tags that they reach are well formed. -/
theorem conditionParsing_returns_iff (env : Env) (now : Nat) :
    (∀ tag, Tag.tryFrom env tag ≠ .panic ↔ Tag.complete tag = true) ∧
      (∀ tags, Conditions.tryFrom env tags ≠ .panic ↔
        ∀ tag ∈ tags, Tag.wellFormed env tag = true) ∧
      (∀ text, SpendingConditions.tryFrom env text ≠ .panic ↔
        ∀ secret, env.parseSecret text = some secret → secret.dataReadable env = true →
          ∀ tag ∈ secret.secretData.tags.getD [], Tag.wellFormed env tag = true) ∧
      (∀ proof, verifyP2pk env now proof ≠ .panic ↔ TagsWellFormed env proof.secret) ∧
      (∀ proof, verifyHtlc env now proof ≠ .panic ↔ TagsWellFormed env proof.secret) ∧
      ∀ proofs, enforceSigFlag env proofs ≠ .panic ↔
        ∀ proof ∈ proofs, TagsWellFormed env proof.secret :=
  ⟨fun _ => Tag.tryFrom_ne_panic, fun _ => Conditions.tryFrom_ne_panic,
    SpendingConditions.tryFrom_ne_panic, verifyP2pk_ne_panic, verifyHtlc_ne_panic,
    enforceSigFlag_ne_panic⟩

/-! ## A locktime that is no number -/

def panicSecretText : String := "[\"P2PK\",\x7b\"nonce\":\"7a9128b3f9612549f9278958337a5d7f\"," ++
  "\"data\":\"026562efcfadc8e86d44da6a8adf80633d974302e62c850774db1fb36ff4cc7198\"," ++
  "\"tags\":[[\"locktime\",\"soon\"]]\x7d]"

/-- The example secret with one tag that does not parse. -/
def panicSecret : Nut10Secret :=
  ⟨.p2pk, ⟨"7a9128b3f9612549f9278958337a5d7f",
    "026562efcfadc8e86d44da6a8adf80633d974302e62c850774db1fb36ff4cc7198",
    some [["locktime", "soon"]]⟩⟩

def panicEnv : Env :=
  { refundEnv with
    parseSecret := fun text => if text = panicSecretText then some panicSecret else none }

def panicProof : Proof := ⟨Amount.one, .v1 0, panicSecretText, refundKey, none⟩

/-- A tag without its value panics, and a locktime that is no number makes every check panic. -/
theorem malformed_tags_panic :
    Tag.tryFrom panicEnv ["sigflag"] = .panic ∧
      Conditions.tryFrom panicEnv [["locktime", "soon"]] = .panic ∧
      SpendingConditions.tryFrom panicEnv panicSecretText = .panic ∧
      verifyP2pk panicEnv 1700000000 panicProof = .panic ∧
      verifyHtlc panicEnv 1700000000 panicProof = .panic ∧
      enforceSigFlag panicEnv [panicProof] = .panic := by
  decide +kernel

end Cdk
