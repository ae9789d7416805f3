import Cdk.Mint.Melt
import Cdk.Nuts.Issuance

/-!
# The outputs that the change of a melt signs

The blank outputs of a melt request are rows of a table until the melt is paid.
The query that reads them back fixes no order, the mint zips the rows with the
amounts of the change and signs them as they come, and the wallet takes the i-th
signature to be on its i-th output.
-/

namespace Cdk

open Lib

namespace Dhke

variable {q : ℕ} [Fact q.Prime] {G : Type} [AddCommGroup G] [Module (ZMod q) G] [DecidableEq G]

/-- What the table holds of an output. -/
def BlindedMessage.toRow (encode : Point G → PublicKey) (message : BlindedMessage G) :
    Cdk.BlindedMessage :=
  ⟨message.amount, message.keysetId, encode message.blindedSecret⟩

/-- The amounts and the fee of a stored melt request. -/
structure StoredMelt where
  inputsAmount : Amount
  inputsFee : Amount

/-- A row that is to be signed for an amount. -/
def BlindedMessage.forAmount (entry : Amount × BlindedMessage G) : BlindedMessage G :=
  { entry.2 with amount := entry.1 }

/-- The change of `Mint::process_melt_request` for the rows in the order of the query. -/
def signChange (curve : Curve G) (signatory : Id → Option (MintKeySet q)) (keysets : Keysets)
    (encode : Point G → PublicKey) (nonces : Nat → SecretKey q) (melt : StoredMelt) (spent : Amount)
    (rows : List (BlindedMessage G)) : Outcome (Cdk.Error ⊕ Error) (List (BlindSignature q G)) := do
  let info : Db.MeltRequestInfo :=
    ⟨melt.inputsAmount, melt.inputsFee, rows.map (BlindedMessage.toRow encode)⟩
  let amounts ← (changeAmounts keysets info spent).mapErr Sum.inl
  (blindSign curve signatory nonces ((amounts.zip rows).map BlindedMessage.forAmount)).mapErr Sum.inr

/-- The change of `Wallet::melt_proofs_with_metadata`: the first secrets and blinding factors, as
many as there are signatures. -/
def constructChange (premints : PreMintSecrets q G) (keys : Amount → Option (Point G))
    (change : List (BlindSignature q G)) : Outcome Error (List (Proof q G)) :=
  let count := if premints.secrets.length < change.length then premints.secrets.length
    else change.length
  constructProofs change (premints.rs.take count) (premints.secretTexts.take count) keys

/-- The signature is one on the output, by the key of its amount. -/
def Signs (keyset : MintKeySet q) (signature : BlindSignature q G) (output : BlindedMessage G) :
    Prop :=
  ∃ key, keyset.keys signature.amount = some key ∧
    signature.c = signMessage key output.blindedSecret

/-- The mint accepts the proof. -/
def Verifies (curve : Curve G) (keyset : MintKeySet q) (proof : Proof q G) : Prop :=
  ∃ key, keyset.keys proof.amount = some key ∧
    verifyMessage curve key proof.c (utf8 proof.secret) = .ok ()

/-- The signatures of a change are on the first outputs of the request in their order, and the
wallet constructs proofs from them that the mint accepts. -/
def ChangeLands (curve : Curve G) (keyset : MintKeySet q) (premints : PreMintSecrets q G)
    (change : List (BlindSignature q G)) : Prop :=
  List.Forall₂ (Signs keyset) change (premints.blindedMessages.take change.length) ∧
    ∃ proofs, constructChange premints (keyset.publicKeys curve) change = .ok proofs ∧
      ∀ proof ∈ proofs, Verifies curve keyset proof

section Signed

variable {curve : Curve G} {signatory : Id → Option (MintKeySet q)} {keysetId : Id}
  {keyset : MintKeySet q} {nonces : Nat → SecretKey q}

omit [DecidableEq G] in
theorem signs_of_blindSignOne (hkeyset : signatory keysetId = some keyset) {nonce : SecretKey q}
    {message : BlindedMessage G} {signature : BlindSignature q G}
    (hid : message.keysetId = keysetId)
    (h : blindSignOne curve signatory nonce message = .ok signature) :
    Signs keyset signature message := by
  simp only [blindSignOne, BlindSignature.new, Outcome.bind_eq_ok, Outcome.ofOption_eq_ok,
    Outcome.ensure_eq_ok, Outcome.ok.injEq, hid, hkeyset, Option.some.injEq] at h
  obtain ⟨_, rfl, _, -, key, hkey, dleq, -, rfl⟩ := h
  exact ⟨key, hkey, rfl⟩

omit [DecidableEq G] in
/-- The signatory signs the messages in the order in which it gets them. -/
theorem signs_of_blindSign (hkeyset : signatory keysetId = some keyset)
    {messages : List (BlindedMessage G)} (hid : ∀ message ∈ messages, message.keysetId = keysetId)
    {signatures : List (BlindSignature q G)}
    (h : blindSign curve signatory nonces messages = .ok signatures) :
    List.Forall₂ (Signs keyset) signatures messages := by
  induction messages generalizing nonces signatures with
  | nil =>
      cases h
      exact .nil
  | cons message rest ih =>
      obtain ⟨hmessage, hrest⟩ := List.forall_mem_cons.mp hid
      simp only [blindSign, Outcome.bind_eq_ok, Outcome.ok.injEq] at h
      obtain ⟨signature, hsign, signatures', hsigns, rfl⟩ := h
      exact .cons (signs_of_blindSignOne hkeyset hmessage hsign) (ih hrest hsigns)

omit [DecidableEq G] in
/-- A signature is on one point only. -/
theorem blindedSecret_eq_of_signs {signature : BlindSignature q G} {a b : BlindedMessage G}
    (ha : Signs keyset signature a) (hb : Signs keyset signature b) :
    a.blindedSecret = b.blindedSecret := by
  obtain ⟨key, hkey, hc⟩ := ha
  obtain ⟨key', hkey', hc'⟩ := hb
  rw [hkey, Option.some.injEq] at hkey'
  subst hkey'
  have hsmul : key.1 • a.blindedSecret.1 = key.1 • b.blindedSecret.1 :=
    congrArg Subtype.val (hc.symm.trans hc')
  exact Subtype.ext (smul_right_injective G key.2 hsmul)

omit [DecidableEq G] in
theorem blindedSecrets_eq_of_signs {signatures : List (BlindSignature q G)}
    {as bs : List (BlindedMessage G)} (ha : List.Forall₂ (Signs keyset) signatures as)
    (hb : List.Forall₂ (Signs keyset) signatures bs) :
    as.map BlindedMessage.blindedSecret = bs.map BlindedMessage.blindedSecret := by
  induction ha generalizing bs with
  | nil =>
      cases hb
      rfl
  | cons hsigns _ ih =>
      cases hb with
      | cons hsigns' hrest =>
          rw [List.map_cons, List.map_cons, blindedSecret_eq_of_signs hsigns hsigns', ih hrest]

omit [DecidableEq G] in
/-- Only the point of an output is signed. -/
theorem signs_congr {signatures : List (BlindSignature q G)} {as bs : List (BlindedMessage G)}
    (ha : List.Forall₂ (Signs keyset) signatures as)
    (h : as.map BlindedMessage.blindedSecret = bs.map BlindedMessage.blindedSecret) :
    List.Forall₂ (Signs keyset) signatures bs := by
  induction ha generalizing bs with
  | nil =>
      rw [List.map_nil, eq_comm, List.map_eq_nil_iff] at h
      rw [h]
      exact .nil
  | @cons signature a signatures as hsigns _ ih =>
      cases bs with
      | nil => cases h
      | cons b bs =>
          obtain ⟨hpoint, hrest⟩ := List.cons.inj h
          obtain ⟨key, hkey, hc⟩ := hsigns
          exact .cons ⟨key, hkey, hpoint ▸ hc⟩ (ih hrest)

/-- A signature on the point of a pre-mint unblinds to a proof that the mint accepts, whatever the
amount that it is for. -/
theorem exists_verifying_proof (hkeyset : signatory keysetId = some keyset) {nonce : SecretKey q}
    {message : BlindedMessage G} {signature : BlindSignature q G} {p : PreMint q G}
    (hid : message.keysetId = keysetId) (hp : p.Blinded curve keysetId)
    (hpoint : message.blindedSecret = p.blindedMessage.blindedSecret)
    (h : blindSignOne curve signatory nonce message = .ok signature) :
    ∃ proof, constructProof (keyset.publicKeys curve) signature p.r p.secret = .ok proof ∧
      Verifies curve keyset proof := by
  simp only [blindSignOne, BlindSignature.new, Outcome.bind_eq_ok, Outcome.ofOption_eq_ok,
    Outcome.ensure_eq_ok, Outcome.ok.injEq, hid, hkeyset, Option.some.injEq, hpoint] at h
  obtain ⟨_, rfl, _, -, key, hkey, dleq, hdleq, rfl⟩ := h
  let filled : PreMint q G :=
    { p with
      amount := message.amount
      blindedMessage := { p.blindedMessage with amount := message.amount } }
  have hfilled : filled.Blinded curve keysetId := ⟨hp.blinded, rfl, hp.keysetId⟩
  obtain ⟨proof, hproof, haccepted⟩ := exists_constructProof hfilled hkey hdleq
  exact ⟨proof, hproof, key, haccepted.amount ▸ hkey, haccepted.message⟩

theorem exists_verifying_proofs (hkeyset : signatory keysetId = some keyset)
    {messages : List (BlindedMessage G)} (hid : ∀ message ∈ messages, message.keysetId = keysetId)
    {ps : List (PreMint q G)} (hps : ∀ p ∈ ps, p.Blinded curve keysetId)
    (hpoints : messages.map BlindedMessage.blindedSecret =
      (ps.map PreMint.blindedMessage).map BlindedMessage.blindedSecret)
    {signatures : List (BlindSignature q G)}
    (h : blindSign curve signatory nonces messages = .ok signatures) :
    ∃ proofs, constructProofs signatures (ps.map PreMint.r) (ps.map PreMint.secret)
        (keyset.publicKeys curve) = .ok proofs ∧ ∀ proof ∈ proofs, Verifies curve keyset proof := by
  induction messages generalizing nonces signatures ps with
  | nil =>
      cases h
      rw [List.map_nil, eq_comm, List.map_map, List.map_eq_nil_iff] at hpoints
      subst hpoints
      exact ⟨[], rfl, by simp⟩
  | cons message rest ih =>
      cases ps with
      | nil => cases hpoints
      | cons p ps =>
          obtain ⟨hmessage, hrest⟩ := List.forall_mem_cons.mp hid
          obtain ⟨hp, hps⟩ := List.forall_mem_cons.mp hps
          obtain ⟨hpoint, hpoints⟩ := List.cons.inj hpoints
          simp only [blindSign, Outcome.bind_eq_ok, Outcome.ok.injEq] at h
          obtain ⟨signature, hsign, signatures', hsigns, rfl⟩ := h
          obtain ⟨proof, hproof, hverifies⟩ :=
            exists_verifying_proof hkeyset hmessage hp hpoint hsign
          obtain ⟨proofs, hproofs, hall⟩ := ih hrest hps hpoints hsigns
          exact ⟨proof :: proofs, constructProofs_cons hproof hproofs,
            List.forall_mem_cons.mpr ⟨hverifies, hall⟩⟩

omit [Fact q.Prime] [Module (ZMod q) G] [DecidableEq G] in
theorem blindedSecrets_forAmount (amounts : List Amount) (rows : List (BlindedMessage G)) :
    ((amounts.zip rows).map BlindedMessage.forAmount).map BlindedMessage.blindedSecret =
      (rows.take amounts.length).map BlindedMessage.blindedSecret := by
  induction amounts generalizing rows with
  | nil => rfl
  | cons amount amounts ih =>
      cases rows with
      | nil => rfl
      | cons row rows =>
          simp only [List.zip_cons_cons, List.map_cons, List.length_cons, List.take_succ_cons]
          exact congrArg (List.cons _) (ih rows)

end Signed

section Change

variable {curve : Curve G} {signatory : Id → Option (MintKeySet q)} {keysetId : Id}
  {keyset : MintKeySet q} {nonces : Nat → SecretKey q} {keysets : Keysets}
  {encode : Point G → PublicKey} {melt : StoredMelt} {spent : Amount}

/-- The wallet reads as many secrets as there are signatures. -/
theorem constructChange_eq {premints : PreMintSecrets q G} {keys : Amount → Option (Point G)}
    {change : List (BlindSignature q G)} (h : change.length ≤ premints.secrets.length) :
    constructChange premints keys change =
      constructProofs change ((premints.secrets.take change.length).map PreMint.r)
        ((premints.secrets.take change.length).map PreMint.secret) keys := by
  unfold constructChange
  rw [if_neg (Nat.not_lt.mpr h), PreMintSecrets.rs, PreMintSecrets.secretTexts, List.map_take,
    List.map_take]

omit [DecidableEq G] in
/-- The messages that are signed for the change pair the amounts with the rows in their order. -/
theorem blindSign_of_signChange {rows : List (BlindedMessage G)} {amounts : List Amount}
    (hamounts : changeAmounts keysets ⟨melt.inputsAmount, melt.inputsFee,
      rows.map (BlindedMessage.toRow encode)⟩ spent = .ok amounts)
    {change : List (BlindSignature q G)}
    (hchange : signChange curve signatory keysets encode nonces melt spent rows = .ok change) :
    blindSign curve signatory nonces ((amounts.zip rows).map BlindedMessage.forAmount) =
      .ok change := by
  have hamounts := Outcome.mapErr_eq_ok (f := (Sum.inl : Cdk.Error → Cdk.Error ⊕ Error)) |>.mpr
    hamounts
  simpa only [signChange, hamounts, Outcome.bind_ok, Outcome.mapErr_eq_ok] using hchange

/-- The rows of a request are in the keyset of its outputs. -/
theorem keysetId_of_perm {premints : PreMintSecrets q G} (hbuilt : premints.Built curve keysetId)
    {rows : List (BlindedMessage G)} (hrows : rows.Perm premints.blindedMessages)
    (amounts : List Amount) :
    ∀ message ∈ (amounts.zip rows).map BlindedMessage.forAmount, message.keysetId = keysetId := by
  intro message hmessage
  obtain ⟨⟨amount, row⟩, hentry, rfl⟩ := List.mem_map.mp hmessage
  obtain ⟨p, hp, hrow⟩ := List.mem_map.mp (hrows.mem_iff.mp (List.of_mem_zip hentry).2)
  exact (congrArg BlindedMessage.keysetId hrow).symm.trans (hbuilt.blinded p hp).keysetId

/-- The change of a melt lands on the outputs of the request exactly if the rows that are signed
come back in the order of the request. -/
theorem changeLands_iff (hkeyset : signatory keysetId = some keyset)
    {premints : PreMintSecrets q G} (hbuilt : premints.Built curve keysetId)
    {rows : List (BlindedMessage G)} (hrows : rows.Perm premints.blindedMessages)
    {amounts : List Amount}
    (hamounts : changeAmounts keysets ⟨melt.inputsAmount, melt.inputsFee,
      rows.map (BlindedMessage.toRow encode)⟩ spent = .ok amounts)
    {change : List (BlindSignature q G)}
    (hchange : signChange curve signatory keysets encode nonces melt spent rows = .ok change) :
    ChangeLands curve keyset premints change ↔
      (rows.take amounts.length).map BlindedMessage.blindedSecret =
        (premints.blindedMessages.take amounts.length).map BlindedMessage.blindedSecret := by
  have hsign := blindSign_of_signChange hamounts hchange
  have hid := keysetId_of_perm hbuilt hrows amounts
  have hsigns := signs_of_blindSign hkeyset hid hsign
  have hrowsLength : rows.length = premints.blindedMessages.length := hrows.length_eq
  have hlength : change.length = min amounts.length premints.blindedMessages.length := by
    rw [hsigns.length_eq, List.length_map, List.length_zip, hrowsLength]
  have htake : premints.blindedMessages.take change.length =
      premints.blindedMessages.take amounts.length := by
    rw [hlength, ← List.take_eq_take_min]
  rw [ChangeLands, htake]
  constructor
  · rintro ⟨hlands, -⟩
    rw [← blindedSecrets_forAmount]
    exact blindedSecrets_eq_of_signs hsigns hlands
  · intro horder
    rw [← blindedSecrets_forAmount] at horder
    have hbound : change.length ≤ premints.secrets.length := by
      rw [hlength, PreMintSecrets.blindedMessages, List.length_map]
      exact min_le_right _ _
    refine ⟨signs_congr hsigns horder, ?_⟩
    rw [constructChange_eq hbound]
    apply exists_verifying_proofs hkeyset hid _ _ hsign
    · intro p hp
      exact hbuilt.blinded p (List.mem_of_mem_take hp)
    · rw [horder, ← htake, PreMintSecrets.blindedMessages, List.map_take (f := PreMint.blindedMessage)]

end Change

/-! ## Two outputs -/

/-- The integers modulo three, where one secret hashes to one and the others to two. -/
def twoCurve : Curve (ZMod 3) where
  generator := pointOne
  hashToCurve bytes := some (if bytes == utf8 "a" then pointOne else pointTwo)
  hashE _ := 1

def twoKeysets : Keysets := [⟨.v1 0, .sat, true, 0, [1, 2]⟩]

/-- Two blank outputs, on the points two and one. -/
def twoPremints : PreMintSecrets 3 (ZMod 3) where
  secrets := [⟨⟨0, .v1 0, pointTwo⟩, "a", keyOne, 0⟩, ⟨⟨0, .v1 0, pointOne⟩, "b", keyTwo, 0⟩]
  keysetId := .v1 0

def twoEncode (p : Point (ZMod 3)) : PublicKey := ⟨p.1 == 1, 0⟩

/-- The change of three for the rows in some order. -/
def twoChange (rows : List (BlindedMessage (ZMod 3))) :
    Outcome (Cdk.Error ⊕ Error) (List (BlindSignature 3 (ZMod 3))) :=
  signChange twoCurve (fun _ => some threeKeyset) twoKeysets twoEncode threeNonces ⟨8, 0⟩ 5 rows

theorem built_two : twoPremints.Built twoCurve (.v1 0) := by
  have hmake : PreMintSecrets.make twoCurve (.v1 0)
      [(0, "a", keyOne), (0, "b", keyTwo)] = .ok twoPremints := rfl
  exact .make hmake

/-- The rows come back in the order of the request. -/
theorem changeLands_iff_two :
    ∃ change, twoChange twoPremints.blindedMessages = .ok change ∧
      ChangeLands twoCurve threeKeyset twoPremints change := by
  have hamounts : changeAmounts twoKeysets
      ⟨8, 0, twoPremints.blindedMessages.map (BlindedMessage.toRow twoEncode)⟩ 5 = .ok [2, 1] := by
    decide +kernel
  obtain ⟨change, hchange⟩ : ∃ change, twoChange twoPremints.blindedMessages = .ok change :=
    ⟨_, rfl⟩
  refine ⟨change, hchange, ?_⟩
  unfold twoChange at hchange
  exact (changeLands_iff rfl built_two (.refl _) hamounts hchange).mpr rfl

/-- The rows of one request come back in the other order: the first signature is on the second
output. -/
theorem not_changeLands_two :
    ∃ rows, rows.Perm twoPremints.blindedMessages ∧
      ∃ change, twoChange rows = .ok change ∧
        ¬ ChangeLands twoCurve threeKeyset twoPremints change := by
  refine ⟨_, List.reverse_perm _, _, rfl, ?_⟩
  rintro ⟨hsigns, -⟩
  cases hsigns with
  | cons hsigned _ =>
      obtain ⟨key, hkey, hc⟩ := hsigned
      cases hkey
      revert hc
      decide

end Dhke

end Cdk
